-- SUMMARY: Runs of the whole system, and the kernel they refine.
import Mathlib.Logic.Relation
import PiVOS.System

/-!
# Runs of the system

The exceptions of programs come through the dispatch table that the setup filled, at any
moment and with anything in the registers that the hardware may show. A system call is the
kernel's own, lifted; an interrupt serves one device and leaves the rest alone. So the
kernel inside a running system is one the kernel's own steps reach.

All this is about programs that run in EL0 and keep to their own half of the addresses.
Through the other half they could reach the registers of the devices, and a read call the
data of the kernel.
-/

namespace PiVOS
namespace System

variable {M : Type} {b : Board} {ops : MemoryOps M} {progs : KprocProgTab}

/-! ## System calls -/

section Calls

variable {kdevs : Kdevs (System M)} {kcalls : Kcalls (System M)} {kdevs₀ : Kdevs (Kernel M)}
  {kcalls₀ : Kcalls (Kernel M)} (hdevs : kdevs.Lists (devices b ops))
  (hcalls : kcalls.Lists (calls ops progs kdevs)) (hdevs₀ : kdevs₀.Lists (Kernel.devices b ops))
  (hcalls₀ : kcalls₀.Lists (Kernel.calls ops progs kdevs₀))

include hdevs hdevs₀

/-- The I/O calls find the same device in both tables, or none. -/
theorem kdevIo_lift (devId : Int) (s : System M) (call : KdevIo (System M) → Option (Int × System M))
    (call₀ : Kernel M → KdevIo (Kernel M) → Option (Int × Kernel M))
    (huart : call (liftIo (Kernel.devUart b ops)) =
      kernelLens.lift (fun kernel => call₀ kernel (Kernel.devUart b ops)) s) :
    kdevIo kdevs devId s call =
      kernelLens.lift (fun kernel => kdevIo kdevs₀ devId kernel (call₀ kernel)) s := by
  by_cases hid : 0 ≤ devId ∧ devId < 3
  · by_cases hio : devId < 2
    · have hrefused : kdevIo kdevs devId s call = some (Kstatus.devInvalid, s) := by
        obtain rfl | rfl : devId = 0 ∨ devId = 1 := by omega
        · exact kdevIo_of_other (hdevs.bound (i := 0) rfl) (fun dev h => by cases h) s call
        · exact kdevIo_of_other (hdevs.bound (i := 1) rfl) (fun dev h => by cases h) s call
      simp only [Kernel.kdevIo_of_notIo ops hdevs₀ _ ⟨hid.1, hio⟩]
      rw [hrefused, Lens.lift_pure]
    · obtain rfl : devId = 2 := by omega
      have hbound : kdevs.Bound 2 (.io (liftIo (Kernel.devUart b ops))) := hdevs.bound (i := 2) rfl
      simp only [Kernel.kdevIo_of_uart ops hdevs₀]
      rw [kdevIo_of_io hbound, huart]
  · simp only [Kernel.kdevIo_of_unknown ops hdevs₀ _ hid]
    rw [kdevIo_of_unbound (hdevs.not_bound hid), Lens.lift_none]

include hcalls hcalls₀

/-- A system call does to the kernel what it does in the kernel alone, and nothing else. -/
theorem kcallDispatch_lift (esr : Nat) (s : System M) (rs : Frame) : kcallDispatch kcalls esr s rs =
    kernelLens.lift (fun kernel => kcallDispatch kcalls₀ esr kernel rs) s := by
  have hlen : (calls ops progs kdevs).length = 5 := rfl
  by_cases hsize : callIdOf esr = kcallBufferSize
  · simp only [kcallDispatch_of_size hsize]
    rw [Lens.lift_none]
  · by_cases hknown : callIdOf esr < 5
    · obtain hid | hid | hid | hid | hid : callIdOf esr = 0 ∨ callIdOf esr = 1 ∨ callIdOf esr = 2 ∨
          callIdOf esr = 3 ∨ callIdOf esr = 4 := by omega
      all_goals
        have hbound := hcalls.bound (i := callIdOf esr) (by rw [hid]; rfl)
        have hbound₀ := hcalls₀.bound (i := callIdOf esr) (by rw [hid]; rfl)
        simp only [kcallDispatch_of_bound hbound₀]
        rw [kcallDispatch_of_bound hbound]
      · rfl
      · rfl
      all_goals
        simp only [kcallIoWrite, kcallIoRead, kcallIoPollOut]
        rw [Lens.lift_map]
        refine congrArg (Option.map _) (kdevIo_lift hdevs hdevs₀ _ s _ _ rfl)
    · rw [kcallDispatch_of_unbound (hcalls.not_bound (by omega)) hsize]
      simp only [Kernel.kcallDispatch_of_unknown hcalls₀ (by omega) hsize]
      rw [Lens.lift_pure]

end Calls

/-! ## Interrupts -/

/-- What serving an interrupt of device `dev` does to the system. -/
inductive Serves (b : Board) (s : System M) : Int → System M → Prop
  | gic : Serves b s 0 s
  | timer : Serves b s 1 { s with timer := s.timer.reset s.inputs.timer }
  | uart {uart : DevUart} (h : s.kernel.uart.kdevIsr b s.inputs.mis = some uart) :
    Serves b s 2 { s with kernel := { s.kernel with uart } }

/-- The service does not look at the controller, and leaves it alone. -/
theorem Serves.withGic {s s' : System M} {gic : Gic} {dev : Int} (h : Serves b { s with gic } dev s') :
    s'.gic = gic ∧ Serves b s dev { s' with gic := s.gic } := by
  cases h with
  | gic => exact ⟨rfl, .gic⟩
  | timer => exact ⟨rfl, .timer⟩
  | uart h => exact ⟨rfl, .uart h⟩

/-- No device changes the processes. -/
theorem Serves.proc {s s' : System M} {dev : Int} (h : Serves b s dev s') :
    s'.kernel.proc = s.kernel.proc := by
  cases h <;> rfl

/-- The device an interrupt number read from `IAR` leads to. -/
def servedDevice (s : System M) : Int := (s.gic.config (Gic.interruptId s.inputs.gic.iar)).device

/-- What serving relies on: every interrupt has one of the three devices, none is being
served, and the timer has an action. -/
structure ServeReady (s : System M) : Prop where
  devices : ∀ id < 1024, 0 ≤ (s.gic.config id).device ∧ (s.gic.config id).device < 3
  active : s.gic.active = []
  action : s.timer.action = some .testAction

section Interrupts

variable {kdevs : Kdevs (System M)} (hdevs : kdevs.Lists (devices b ops)) {s : System M}

include hdevs

theorem kdevGenericIsr_serves (hready : Kernel.Ready b s.kernel) (haction : s.timer.action = some .testAction)
    {dev : Int} (hdev : 0 ≤ dev ∧ dev < 3) :
    ∃ status s', kdevGenericIsr (isrOf b) kdevs dev s = some (status, s') ∧ Serves b s dev s' := by
  obtain rfl | rfl | rfl : dev = 0 ∨ dev = 1 ∨ dev = 2 := by omega
  · have hbound : kdevs.Bound 0 .gic := hdevs.bound (i := 0) rfl
    refine ⟨Kstatus.devGenericNoIsr, s, ?_, .gic⟩
    rw [kdevGenericIsr, hbound]
    rfl
  · have hbound : kdevs.Bound 1 .timer := hdevs.bound (i := 1) rfl
    refine ⟨Kstatus.devGenericOk, _, ?_, .timer⟩
    rw [kdevGenericIsr, hbound]
    simp [isrOf, GenericTimer.kdevIsr, haction]
  · have hbound : kdevs.Bound 2 (.io (liftIo (Kernel.devUart b ops))) := hdevs.bound (i := 2) rfl
    obtain ⟨reg₀, accepted, delivered, huart⟩ := hready.settled
    obtain ⟨uart, hrun, -⟩ := DevUart.kdevIsr_total huart s.inputs.mis
    refine ⟨Kstatus.devGenericOk, _, ?_, .uart hrun⟩
    rw [kdevGenericIsr, hbound]
    simp [isrOf, hrun]

/-- An interrupt is taken, served and ended: the registers of the program are as before, and
so is the controller. -/
theorem gicv2Dispatch_serves (hready : Kernel.Ready b s.kernel) (hserve : ServeReady s) (rs : Frame)
    (esr : Nat) : ∃ s', gicv2Dispatch b kdevs rs esr s = some (rs, s') ∧ Serves b s s.servedDevice s' := by
  have hid : Gic.interruptId s.inputs.gic.iar < 1024 := Gic.interruptId_lt _
  have hvalid : s.gic.ActiveValid := fun id hmem => by rw [hserve.active] at hmem; cases hmem
  obtain ⟨irqId, gic, htake⟩ : ∃ irqId gic, s.gic.getIrqId s.inputs.gic = (irqId, gic) := ⟨_, _, rfl⟩
  have hsame := s.gic.irqDevices_getIrqId s.inputs.gic
  rw [htake] at hsame
  obtain rfl : Gic.interruptId s.inputs.gic.iar = irqId := congrArg Prod.fst htake
  have hdevice : gic.irqDevices[Gic.interruptId s.inputs.gic.iar]? = some s.servedDevice := by
    rw [hsame, servedDevice, Gicv2.config, Vector.getElem?_eq_getElem hid]
    rfl
  obtain ⟨status, s', hisr, hserves⟩ := kdevGenericIsr_serves hdevs (s := { s with gic }) hready
    hserve.action (hserve.devices _ hid)
  have hisr' : kdevGenericIsr (isrOf b) kdevs s.servedDevice { s with gic } = some (status, s') := hisr
  obtain ⟨hgic, hserves'⟩ := hserves.withGic
  have hend := Gic.endIsr_getIrqId hvalid s.inputs.gic s'.inputs.gic
  rw [htake] at hend
  refine ⟨{ s' with gic := s.gic }, ?_, hserves'⟩
  simp only at hend
  rw [gicv2Dispatch, htake]
  simp [hdevice, hisr', hgic, hend]

end Interrupts

/-! ## The dispatch table -/

/-- The exceptions that are interrupts, of the kernel and of programs. -/
def IsIrq (type : IntType) : Prop := type = .curElSpnIrq ∨ type = .lowElAarch64Irq

instance (type : IntType) : Decidable (IsIrq type) := inferInstanceAs (Decidable (_ ∨ _))

section Dispatch

variable (gicDispatch : IntDispatchFn (System M)) (kcalls : Kcalls (System M)) (rs : Frame)
  (esr : Nat) (s : System M)

theorem intDispatch_irq {type : IntType} (h : IsIrq type) :
    intDispatch (kernelDispatchTab gicDispatch kcalls) type rs esr s = gicDispatch rs esr s := by
  rcases h with rfl | rfl
  · rfl
  · rfl

theorem intDispatch_other {type : IntType} (hirq : ¬IsIrq type) (hsync : type ≠ .lowElAarch64Sync) :
    intDispatch (kernelDispatchTab gicDispatch kcalls) type rs esr s = some (rs, s) := by
  obtain ⟨hcur, hlow⟩ := not_or.mp hirq
  rw [intDispatch, kernelDispatchTab, intRegister, Function.update_of_ne hsync, intRegister,
    Function.update_of_ne hlow, intRegister, Function.update_of_ne hcur]
  rfl

end Dispatch

/-! ## Runs -/

/-- The exceptions of a program that runs in EL0, in AArch64 state. -/
def OfProgram (type : IntType) : Prop :=
  type = .lowElAarch64Sync ∨ type = .lowElAarch64Irq ∨ type = .lowElAarch64Fiq ∨ type = .lowElAarch64Serror

/-- A call that is given a buffer is given one in the lower half of the addresses. -/
def OwnBuffer (esr : Nat) (rs : Frame) : Prop :=
  callIdOf esr = 2 ∨ callIdOf esr = 3 → (rs 1).toNat + rs.uint32 2 ≤ 2 ^ 48

theorem ownBuffer_of_lt {esr : Nat} (h : callIdOf esr < 2) (rs : Frame) : OwnBuffer esr rs := by
  intro hbuffer
  omega

/-- What happens next: the program computes, the UART moves, time goes by, or an exception
is taken, with what the hardware gives while it is handled. -/
inductive Event (M : Type)
  | program (memory : M) (spEl0 elrEl1 : BitVec 64)
  | uart (m : UartMove)
  | time (n : Nat)
  | exception (inputs : HardwareInputs) (type : IntType) (esr : Nat) (rs rs' : Frame)

/-- A program changes its memory and its registers, and no device. -/
inductive Step (b : Board) (tables : Tables M) : System M → Event M → System M → Prop
  | program (s : System M) (memory : M) (spEl0 elrEl1 : BitVec 64) :
    Step b tables s (.program memory spEl0 elrEl1)
      { s with kernel := { s.kernel with proc := { s.kernel.proc with memory, spEl0, elrEl1 } } }
  | uart (s : System M) (m : UartMove) :
    Step b tables s (.uart m)
      { s with kernel := { s.kernel with uart := { s.kernel.uart with reg := s.kernel.uart.reg.move b m } } }
  | time (s : System M) (n : Nat) : Step b tables s (.time n) { s with timer := s.timer.tick n }
  | exception {s s' : System M} {inputs : HardwareInputs} {type : IntType} {esr : Nat} {rs rs' : Frame}
      (htype : OfProgram type) (hown : type = .lowElAarch64Sync → OwnBuffer esr rs)
      (h : intDispatch tables.tab type rs esr { s with inputs } = some (rs', s')) :
    Step b tables s (.exception inputs type esr rs rs') s'

/-- The device the setup bound to an interrupt. -/
def boundDevice (irqId : Nat) : Int := if irqId = 30 then 1 else if irqId = 153 then 2 else 0

/-- What an exception does to the running system `s`: a synchronous one of a program is the
kernel's own system call, an interrupt serves one device and gives the program its registers
back, anything else changes nothing. -/
structure Handles (b : Board) (tables : Tables M) (kcalls₀ : Kcalls (Kernel M)) (s : System M) : Prop where
  call : ∀ rs esr, intDispatch tables.tab .lowElAarch64Sync rs esr s =
    kernelLens.lift (fun kernel => kcallDispatch kcalls₀ esr kernel rs) s
  irq : ∀ type, IsIrq type → ∀ inputs rs esr, ∃ s',
    intDispatch tables.tab type rs esr { s with inputs } = some (rs, s') ∧
      Serves b { s with inputs } (boundDevice (Gic.interruptId inputs.gic.iar)) s'
  other : ∀ type, ¬IsIrq type → type ≠ .lowElAarch64Sync → ∀ rs esr,
    intDispatch tables.tab type rs esr s = some (rs, s)

/-- The kernel inside is one the kernel alone can reach, and every interrupt is as the setup
left it. -/
structure Running (b : Board) (ops : MemoryOps M) (progs : KprocProgTab) (kcalls₀ : Kcalls (Kernel M))
    (gic : Gic) (s : System M) : Prop where
  kernel : Kernel.Reachable b ops progs kcalls₀ s.kernel
  gic : s.gic = gic
  action : s.timer.action = some .testAction

section Running

variable {tables : Tables M} {s₀ s₁ : System M} {kdevs₀ : Kdevs (Kernel M)}
  {kcalls₀ : Kcalls (Kernel M)} (hdevs₀ : kdevs₀.Lists (Kernel.devices b ops))
  (hcalls₀ : kcalls₀.Lists (Kernel.calls ops progs kdevs₀))
  (hsetup : SetUp b ops progs s₀ tables s₁) (hzero : ∀ id < 1024, (s₀.gic.config id).device = 0)
  (hactive : s₀.gic.active = [])

include hsetup hzero in
theorem SetUp.device {id : Nat} (hid : id < 1024) : (s₁.gic.config id).device = boundDevice id := by
  rw [hsetup.wired.config id hid, boundDevice]
  by_cases htimer : id = 30
  · rw [if_pos htimer, if_pos htimer]
  · by_cases huart : id = 153
    · rw [if_neg htimer, if_neg htimer, if_pos huart, if_pos huart]
    · rw [if_neg htimer, if_neg htimer, if_neg huart, if_neg huart, hzero id hid]

include hsetup hzero hactive in
theorem Running.serveReady {s : System M} (h : Running b ops progs kcalls₀ s₁.gic s) : ServeReady s where
  devices id hid := by
    rw [h.gic, hsetup.device hzero hid, boundDevice]
    split
    · decide
    · split <;> decide
  active := by rw [h.gic, hsetup.wired.active, hactive]
  action := h.action

include hdevs₀ hcalls₀ hsetup hzero hactive in
theorem Running.handles {s : System M} (h : Running b ops progs kcalls₀ s₁.gic s) :
    Handles b tables kcalls₀ s where
  call rs esr := by
    rw [hsetup.tab, intDispatch_sync]
    exact kcallDispatch_lift hsetup.devs hsetup.calls hdevs₀ hcalls₀ esr s rs
  irq type hirq inputs rs esr := by
    obtain ⟨s', hrun, hserves⟩ := gicv2Dispatch_serves hsetup.devs (s := { s with inputs })
      (h.kernel.ready hdevs₀ hcalls₀)
      ⟨(h.serveReady hsetup hzero hactive).devices, (h.serveReady hsetup hzero hactive).active, h.action⟩
      rs esr
    refine ⟨s', ?_, ?_⟩
    · rw [hsetup.tab, intDispatch_irq _ _ _ _ _ hirq]
      exact hrun
    · have hdevice : servedDevice { s with inputs } = boundDevice (Gic.interruptId inputs.gic.iar) := by
        rw [servedDevice, h.gic, hsetup.device hzero (Gic.interruptId_lt _)]
      rwa [hdevice] at hserves
  other type hirq hsync rs esr := by
    rw [hsetup.tab]
    exact intDispatch_other _ _ _ _ _ hirq hsync

theorem Running.withInputs {gic : Gic} {s : System M} (h : Running b ops progs kcalls₀ gic s)
    (inputs : HardwareInputs) : Running b ops progs kcalls₀ gic { s with inputs } :=
  ⟨h.kernel, h.gic, h.action⟩

theorem Running.serves {gic : Gic} {inputs : HardwareInputs} {s s' : System M} {dev : Int}
    (h : Running b ops progs kcalls₀ gic s) (hserves : Serves b { s with inputs } dev s') :
    Running b ops progs kcalls₀ gic s' := by
  cases hserves with
  | gic => exact ⟨h.kernel, h.gic, h.action⟩
  | timer => exact ⟨h.kernel, h.gic, by rw [GenericTimer.reset_eq]; exact h.action⟩
  | uart hisr => exact ⟨.interrupt h.kernel hisr, h.gic, h.action⟩

include hdevs₀ hcalls₀ hsetup hzero hactive in
/-- What an exception can be. -/
theorem Running.exception_cases {s s' : System M} {inputs : HardwareInputs} {type : IntType}
    {esr : Nat} {rs rs' : Frame} (h : Running b ops progs kcalls₀ s₁.gic s)
    (hrun : intDispatch tables.tab type rs esr { s with inputs } = some (rs', s')) :
    (IsIrq type ∧ rs' = rs ∧
      Serves b { s with inputs } (boundDevice (Gic.interruptId inputs.gic.iar)) s') ∨
    (type = .lowElAarch64Sync ∧ ∃ kernel, kcallDispatch kcalls₀ esr s.kernel rs = some (rs', kernel) ∧
      s' = { s with kernel, inputs }) ∨
    (¬IsIrq type ∧ type ≠ .lowElAarch64Sync ∧ rs' = rs ∧ s' = { s with inputs }) := by
  have hhandles := (h.withInputs inputs).handles hdevs₀ hcalls₀ hsetup hzero hactive
  by_cases hirq : IsIrq type
  · obtain ⟨s'', hrun', hserves⟩ := hhandles.irq type hirq inputs rs esr
    obtain ⟨rfl, rfl⟩ := Prod.mk.inj (Option.some.inj (hrun.symm.trans hrun'))
    exact .inl ⟨hirq, rfl, hserves⟩
  · by_cases hsync : type = .lowElAarch64Sync
    · rw [hsync, hhandles.call, Lens.lift_eq_some] at hrun
      obtain ⟨kernel, hcall, rfl⟩ := hrun
      exact .inr (.inl ⟨hsync, kernel, hcall, rfl⟩)
    · rw [hhandles.other type hirq hsync] at hrun
      obtain ⟨rfl, rfl⟩ := Prod.mk.inj (Option.some.inj hrun)
      exact .inr (.inr ⟨hirq, hsync, rfl, rfl⟩)

include hdevs₀ hcalls₀ hsetup hzero hactive in
theorem Running.step {s s' : System M} {e : Event M} (h : Running b ops progs kcalls₀ s₁.gic s)
    (hstep : Step b tables s e s') : Running b ops progs kcalls₀ s₁.gic s' := by
  cases hstep with
  | program memory spEl0 elrEl1 => exact ⟨.user h.kernel memory spEl0 elrEl1, h.gic, h.action⟩
  | uart m => exact ⟨.hardware h.kernel m, h.gic, h.action⟩
  | time n => exact ⟨h.kernel, h.gic, h.action⟩
  | exception _ _ hrun =>
    obtain ⟨-, -, hserves⟩ | ⟨-, kernel, hcall, rfl⟩ | ⟨-, -, -, rfl⟩ :=
      h.exception_cases hdevs₀ hcalls₀ hsetup hzero hactive hrun
    · exact h.serves hserves
    · exact ⟨.call h.kernel hcall, h.gic, h.action⟩
    · exact ⟨h.kernel, h.gic, h.action⟩

end Running

/-- `s` is as the hardware and the loader leave it: no process, nothing on the line of the
UART, no interrupt being served, and zeros in the table of devices. -/
structure PowerOn (b : Board) (s : System M) : Prop where
  capacity : s.kernel.proc.stack.capacity = kprocMaxCount
  empty : s.kernel.proc.stack.len = 0
  fifo : s.kernel.uart.reg.txFifo.length ≤ b.depth
  sent : s.kernel.uart.reg.sent = []
  arrived : s.kernel.uart.reg.arrived = []
  zero : ∀ id < 1024, (s.gic.config id).device = 0
  active : s.gic.active = []

theorem SetUp.running {s₀ s₁ : System M} {tables : Tables M} (hpower : PowerOn b s₀)
    (h : SetUp b ops progs s₀ tables s₁) (kcalls₀ : Kcalls (Kernel M)) :
    Running b ops progs kcalls₀ s₁.gic s₁ where
  kernel := by
    have hkernel : s₁.kernel = ⟨s₁.kernel.proc, s₁.kernel.uart⟩ := rfl
    rw [hkernel, h.uart]
    exact .boot _ _ hpower.capacity hpower.empty h.proc hpower.fifo hpower.sent hpower.arrived
  gic := rfl
  action := by rw [h.timer]; rfl

/-- The setup always completes, and the system it makes refines the kernel: along every run
of devices, of programs that keep to their own half and of their exceptions, the kernel in it
is one that the kernel's own steps reach; system calls are the kernel's, with nothing else
changed; every interrupt is taken, serves the device bound to it and is ended, and returns
all registers; and the controller stays ready to deliver the interrupts of the timer and of
the UART. -/
theorem runs_refine (b : Board) (ops : MemoryOps M) (progs : KprocProgTab) {s₀ : System M}
    (hpower : PowerOn b s₀) :
    ∃ tables s₁ kdevs₀ kcalls₀, kernelMain b ops progs s₀ = some (tables, s₁) ∧
      Kernel.setupDevices b ops = some (2, kdevs₀) ∧
      Kernel.setupSyscalls ops progs kdevs₀ = some (4, kcalls₀) ∧
      ∀ es s, Exec (Step b tables) s₁ es s →
        Kernel.Reachable b ops progs kcalls₀ s.kernel ∧ Handles b tables kcalls₀ s ∧
        s.gic.active = [] ∧ s.gic.delivers 30 = true ∧ s.gic.delivers 153 = true := by
  obtain ⟨tables, s₁, hmain, hsetup⟩ := kernelMain_spec b ops progs hpower.capacity hpower.empty
  obtain ⟨kdevs₀, hsetup₀, hdevs₀⟩ := Kernel.setupDevices_lists b ops
  obtain ⟨kcalls₀, hsyscalls₀, hcalls₀⟩ := Kernel.setupSyscalls_lists ops progs kdevs₀
  refine ⟨tables, s₁, kdevs₀, kcalls₀, hmain, hsetup₀, hsyscalls₀, fun es s hrun => ?_⟩
  have hrunning : Running b ops progs kcalls₀ s₁.gic s :=
    hrun.invariant (fun s e s' h hstep => h.step hdevs₀ hcalls₀ hsetup hpower.zero hpower.active hstep)
      (hsetup.running hpower kcalls₀)
  refine ⟨hrunning.kernel, hrunning.handles hdevs₀ hcalls₀ hsetup hpower.zero hpower.active,
    (hrunning.serveReady hsetup hpower.zero hpower.active).active, ?_, ?_⟩
  · rw [hrunning.gic]
    exact hsetup.wired.delivers (.inl rfl)
  · rw [hrunning.gic]
    exact hsetup.wired.delivers (.inr rfl)

/-- A board after a reset, with every register zero. -/
def resetSystem : System Unit where
  kernel := ⟨Machine.noProcess, DevUart.init UartSession.idleUart (fun _ => 0) (fun _ => 0)⟩
  gic := ⟨Gicv2.idle, .replicate 32 0, 0, 0, 0, []⟩
  timer := ⟨0, 0, false, false, 0, none⟩
  inputs := ⟨⟨0, 0⟩, ⟨54000000, 0, 0⟩, 0⟩

theorem resetSystem_powerOn : PowerOn UartSession.slowBoard resetSystem where
  capacity := rfl
  empty := rfl
  fifo := by decide
  sent := rfl
  arrived := rfl
  zero id hid := by
    have hentry : (Vector.replicate 1024 (0 : Int))[id]? = some 0 := by simp [hid]
    exact congrArg (Option.getD · 0) hentry
  active := rfl

theorem runs_refine_resetSystem :
    ∃ tables s₁ kdevs₀ kcalls₀,
      kernelMain UartSession.slowBoard Machine.oneTable Machine.noText resetSystem = some (tables, s₁) ∧
      Kernel.setupDevices UartSession.slowBoard Machine.oneTable = some (2, kdevs₀) ∧
      Kernel.setupSyscalls Machine.oneTable Machine.noText kdevs₀ = some (4, kcalls₀) ∧
      ∀ es s, Exec (Step UartSession.slowBoard tables) s₁ es s →
        Kernel.Reachable UartSession.slowBoard Machine.oneTable Machine.noText kcalls₀ s.kernel ∧
        Handles UartSession.slowBoard tables kcalls₀ s ∧
        s.gic.active = [] ∧ s.gic.delivers 30 = true ∧ s.gic.delivers 153 = true :=
  runs_refine UartSession.slowBoard Machine.oneTable Machine.noText resetSystem_powerOn

end System
end PiVOS
