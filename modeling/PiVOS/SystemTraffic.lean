-- SUMMARY: Every byte that programs move through the UART, in runs of the whole system.
import PiVOS.Dev.UartMixed
import PiVOS.SystemRuns

/-!
# Traffic of the system

What the kernel calls tell programs about their bytes is a ghost record, carried along a run
beside the state. It agrees with the driver, its rings and the FIFOs in every state reached,
with programs that write both through the ring and past it.
-/

namespace PiVOS

/-- The bytes that have gone through the calls of programs: taken into the ring, put out past
it, and given back. -/
structure Traffic where
  accepted : List UInt8
  polled : List UInt8
  delivered : List UInt8

namespace Traffic

def none : Traffic := ⟨[], [], []⟩

def append (t moved : Traffic) : Traffic :=
  ⟨t.accepted ++ moved.accepted, t.polled ++ moved.polled, t.delivered ++ moved.delivered⟩

@[simp] theorem append_none (t : Traffic) : t.append none = t := by
  simp [append, none]

end Traffic

namespace Kernel

variable {M : Type} {b : Board} {ops : MemoryOps M} {progs : KprocProgTab}

/-- A call of the UART. -/
def CallsUart (esr : Nat) (rs : Frame) : Prop := 2 ≤ callIdOf esr ∧ callIdOf esr < 5 ∧ rs.int32 0 = 2

/-- The bytes a call moves, as the caller sees it: `x0` tells how many bytes from its buffer
were taken, or how many were put there, or whether the byte it gave was put out. -/
inductive Transfers (ops : MemoryOps M) (esr : Nat) (rs : Frame) (s : Kernel M) :
    Frame → Kernel M → Traffic → Prop
  | write {s' : Kernel M} {r : Nat} (hcall : callIdOf esr = 2) (hdev : rs.int32 0 = 2)
      (hr : r ≤ rs.uint32 2) (hproc : s'.proc = s.proc) :
    Transfers ops esr rs s (rs.setStatus r) s' ⟨(List.range r).map (s.userBytes ops (rs 1).toNat), [], []⟩
  | read {s' : Kernel M} (bytes : List UInt8) (hcall : callIdOf esr = 3) (hdev : rs.int32 0 = 2)
      (hlen : bytes.length ≤ rs.uint32 2)
      (hproc : s'.proc = { s.proc with
        memory := ops.bytecpy s.proc.ttbr0 (rs 1).toNat bytes s.proc.memory }) :
    Transfers ops esr rs s (rs.setStatus bytes.length) s' ⟨[], [], bytes⟩
  | pollOut {s' : Kernel M} (hcall : callIdOf esr = 4) (hdev : rs.int32 0 = 2) (hproc : s'.proc = s.proc) :
    Transfers ops esr rs s (rs.setStatus Kstatus.devIoOk) s' ⟨[], [UInt8.ofNat (rs 1).toNat], []⟩
  | wait {s' : Kernel M} (hcall : callIdOf esr = 4) (hdev : rs.int32 0 = 2) (hproc : s'.proc = s.proc) :
    Transfers ops esr rs s (rs.setStatus Kstatus.devIoTxWait) s' .none
  | other {rs' : Frame} {s' : Kernel M} (h : ¬CallsUart esr rs) (huart : s'.uart = s.uart) :
    Transfers ops esr rs s rs' s' .none

/-- The record agrees with the driver. -/
def Accounts (b : Board) (reg₀ : Uart) (t : Traffic) (dev : DevUart) : Prop :=
  DevUart.Mixed b reg₀ t.accepted t.polled t.delivered dev

section Calls

variable {reg₀ : Uart} {t : Traffic} {kdevs : Kdevs (Kernel M)} {kcalls : Kcalls (Kernel M)}
  {s s' : Kernel M} {esr : Nat} {rs rs' : Frame}

theorem Accounts.write (h : Accounts b reg₀ t s.uart) (hcall : callIdOf esr = 2) (hdev : rs.int32 0 = 2)
    {r : Int} (hrun : (devUart b ops).write s (rs 1).toNat (rs.uint32 2) = some (r, s')) :
    ∃ moved, Transfers ops esr rs s (rs.setStatus r) s' moved ∧ Accounts b reg₀ (t.append moved) s'.uart := by
  obtain ⟨n, uart, hwrite, hle, hmixed⟩ := DevUart.Mixed.write h (s.userBytes ops (rs 1).toNat) (rs.uint32 2)
  obtain ⟨uart', hwrite', rfl⟩ := devUart_write ops hrun
  obtain ⟨rfl, rfl⟩ := Prod.mk.inj (Option.some.inj (hwrite'.symm.trans hwrite))
  refine ⟨_, .write hcall hdev hle rfl, ?_⟩
  simpa only [Accounts, Traffic.append, List.append_nil] using hmixed

theorem Accounts.read (h : Accounts b reg₀ t s.uart) (hcall : callIdOf esr = 3) (hdev : rs.int32 0 = 2)
    {r : Int} (hrun : (devUart b ops).read s (rs 1).toNat (rs.uint32 2) = some (r, s')) :
    ∃ moved, Transfers ops esr rs s (rs.setStatus r) s' moved ∧ Accounts b reg₀ (t.append moved) s'.uart := by
  obtain ⟨n, bytes, uart, hread, hle, hmixed⟩ := DevUart.Mixed.read h (s.userBytes ops (rs 1).toNat) (rs.uint32 2)
  obtain ⟨bytes', uart', hread', rfl⟩ := devUart_read ops hrun
  obtain ⟨rfl, hrest⟩ := Prod.mk.inj (Option.some.inj (hread'.symm.trans hread))
  obtain ⟨rfl, rfl⟩ := Prod.mk.inj hrest
  let copied := (List.range n).map bytes'
  have hlen : copied.length = n := by rw [List.length_map, List.length_range]
  let memory := ops.bytecpy s.proc.ttbr0 (rs 1).toNat copied s.proc.memory
  have htransfers : Transfers ops esr rs s (rs.setStatus copied.length)
      { proc := { s.proc with memory }, uart := uart' } ⟨[], [], copied⟩ :=
    .read copied hcall hdev (hlen.trans_le hle) rfl
  rw [hlen] at htransfers
  refine ⟨_, htransfers, ?_⟩
  simpa only [Accounts, Traffic.append, List.append_nil] using hmixed

theorem Accounts.pollOut (h : Accounts b reg₀ t s.uart) (hcall : callIdOf esr = 4) (hdev : rs.int32 0 = 2)
    {r : Int} (hrun : (devUart b ops).poolOut s (UInt8.ofNat (rs 1).toNat) = some (r, s')) :
    ∃ moved, Transfers ops esr rs s (rs.setStatus r) s' moved ∧ Accounts b reg₀ (t.append moved) s'.uart := by
  obtain ⟨status, uart, hpoll⟩ : ∃ status uart,
      s.uart.kdevPoolOut b (UInt8.ofNat (rs 1).toNat) = (status, uart) := ⟨_, _, rfl⟩
  have hdevice : (devUart b ops).poolOut s (UInt8.ofNat (rs 1).toNat) = some (status, { s with uart }) := by
    simp only [devUart, hpoll]
  obtain ⟨rfl, rfl⟩ := Prod.mk.inj (Option.some.inj (hrun.symm.trans hdevice))
  have hpolled := DevUart.Mixed.poll h (UInt8.ofNat (rs 1).toNat)
  rw [hpoll] at hpolled
  rcases hpolled with ⟨rfl, hmixed⟩ | ⟨rfl, hmixed⟩
  · refine ⟨_, .wait hcall hdev rfl, ?_⟩
    rwa [Traffic.append_none]
  · refine ⟨_, .pollOut hcall hdev rfl, ?_⟩
    simpa only [Accounts, Traffic.append, List.append_nil] using hmixed

/-- A call that is not one of the UART leaves it alone. -/
theorem kcallDispatch_uart (hdevs : kdevs.Lists (devices b ops)) (hcalls : kcalls.Lists (calls ops progs kdevs))
    (h : kcallDispatch kcalls esr s rs = some (rs', s')) (hother : ¬CallsUart esr rs) : s'.uart = s.uart := by
  by_cases hin : InTables s esr rs
  · obtain ⟨hsize, -, hdev⟩ := hin
    rcases Nat.lt_or_ge (callIdOf esr) 5 with hlt | hge
    · obtain hid | hid | hio : callIdOf esr = 0 ∨ callIdOf esr = 1 ∨ 2 ≤ callIdOf esr := by omega
      · rw [kcallDispatch_of_bound (hcalls.bound (calls_procExit ops progs kdevs hid))] at h
        obtain ⟨result, -, heq⟩ := Option.map_eq_some_iff.mp h
        obtain ⟨-, rfl⟩ := Prod.mk.inj heq
        rfl
      · rw [kcallDispatch_of_bound (hcalls.bound (calls_procStart ops progs kdevs hid))] at h
        obtain ⟨result, -, heq⟩ := Option.map_eq_some_iff.mp h
        obtain ⟨-, rfl⟩ := Prod.mk.inj heq
        rfl
      · have hid := hdev ⟨hio, hlt⟩
        have hnot : rs.int32 0 ≠ 2 := fun htwo => hother ⟨hio, hlt, htwo⟩
        obtain ⟨call, heq, -⟩ := kcallDispatch_of_io (b := b) hcalls ⟨hio, hlt⟩
        rw [heq, kdevIo_of_notIo ops hdevs (call s rs) ⟨hid.1, by omega⟩] at h
        obtain ⟨-, rfl⟩ := Prod.mk.inj (Option.some.inj h)
        rfl
    · rw [kcallDispatch_of_unknown hcalls hge hsize] at h
      obtain ⟨-, rfl⟩ := Prod.mk.inj (Option.some.inj h)
      rfl
  · rw [kcallDispatch_stray hdevs hcalls hin] at h
    cases h

/-- Every call tells the truth about the bytes it moves. -/
theorem Accounts.call (hdevs : kdevs.Lists (devices b ops)) (hcalls : kcalls.Lists (calls ops progs kdevs))
    (haccounts : Accounts b reg₀ t s.uart) (h : kcallDispatch kcalls esr s rs = some (rs', s')) :
    ∃ moved, Transfers ops esr rs s rs' s' moved ∧ Accounts b reg₀ (t.append moved) s'.uart := by
  by_cases hother : CallsUart esr rs
  · obtain ⟨hlo, hhi, hdev⟩ := hother
    have hfound : ∀ call, kdevIo kdevs (rs.int32 0) s call = call (devUart b ops) := fun call => by
      rw [hdev]
      exact kdevIo_of_uart ops hdevs call
    obtain hid | hid | hid : callIdOf esr = 2 ∨ callIdOf esr = 3 ∨ callIdOf esr = 4 := by omega
    all_goals
      rw [kcallDispatch_of_bound (hcalls.bound (i := callIdOf esr) (by rw [hid]; rfl))] at h
      obtain ⟨⟨r, s₁⟩, hrun, heq⟩ := Option.map_eq_some_iff.mp h
      obtain ⟨rfl, rfl⟩ := Prod.mk.inj heq
      simp only [kdevIoWrite, kdevIoRead, kdevIoPoolOut, hfound] at hrun
    · exact haccounts.write hid hdev hrun
    · exact haccounts.read hid hdev hrun
    · exact haccounts.pollOut hid hdev hrun
  · have huart := kcallDispatch_uart hdevs hcalls h hother
    refine ⟨.none, .other hother huart, ?_⟩
    rwa [Traffic.append_none, huart]

end Calls

end Kernel
namespace System

variable {M : Type} {b : Board} {ops : MemoryOps M} {progs : KprocProgTab}

/-- The bytes an event moves: those of the system call, if it is one. -/
inductive Transfers (ops : MemoryOps M) (s : System M) : Event M → System M → Traffic → Prop
  | call {inputs : HardwareInputs} {esr : Nat} {rs rs' : Frame} {s' : System M} {moved : Traffic}
      (h : Kernel.Transfers ops esr rs s.kernel rs' s'.kernel moved) :
    Transfers ops s (.exception inputs .lowElAarch64Sync esr rs rs') s' moved
  | other {e : Event M} {s' : System M}
      (h : ∀ inputs esr rs rs', e ≠ .exception inputs .lowElAarch64Sync esr rs rs') :
    Transfers ops s e s' .none

/-- No read or write asks for `2 ^ 31` bytes: an `int32_t` counts them. -/
def Event.Counted : Event M → Prop
  | .exception _ type esr rs _ =>
    type = .lowElAarch64Sync ∧ (callIdOf esr = 2 ∨ callIdOf esr = 3) → rs.uint32 2 < 2 ^ 31
  | _ => True

/-- A step of the system with the record of its traffic. -/
def Records (b : Board) (ops : MemoryOps M) (tables : Tables M) (p : System M × Traffic) (e : Event M)
    (p' : System M × Traffic) : Prop :=
  Step b tables p.1 e p'.1 ∧ ∃ moved, Transfers ops p.1 e p'.1 moved ∧ p'.2 = p.2.append moved

section Steps

variable {tables : Tables M} {s₀ s₁ s s' : System M} {kdevs₀ : Kdevs (Kernel M)}
  {kcalls₀ : Kcalls (Kernel M)} {reg₀ : Uart} {t : Traffic}
  (hdevs₀ : kdevs₀.Lists (Kernel.devices b ops))
  (hcalls₀ : kcalls₀.Lists (Kernel.calls ops progs kdevs₀))
  (hpower : PowerOn b s₀) (hsetup : SetUp b ops progs s₀ tables s₁)

theorem Serves.accounts {dev : Int} (haccounts : Kernel.Accounts b reg₀ t s.kernel.uart)
    (h : Serves b s dev s') : Kernel.Accounts b reg₀ t s'.kernel.uart := by
  cases h with
  | gic => exact haccounts
  | timer => exact haccounts
  | uart hisr =>
    obtain ⟨uart, hrun, hnext⟩ := DevUart.Mixed.isr haccounts s.inputs.mis
    obtain rfl := Option.some.inj (hisr.symm.trans hrun)
    exact hnext

include hdevs₀ hcalls₀ hpower hsetup

/-- Every step moves what it says it moves. -/
theorem Running.traffic {e : Event M} (h : Running b ops progs kcalls₀ s₁.gic s)
    (haccounts : Kernel.Accounts b reg₀ t s.kernel.uart) (hstep : Step b tables s e s') :
    ∃ moved, Transfers ops s e s' moved ∧ Kernel.Accounts b reg₀ (t.append moved) s'.kernel.uart := by
  have hnone : ∀ s' : System M, Kernel.Accounts b reg₀ t s'.kernel.uart →
      (∀ inputs esr rs rs', e ≠ .exception inputs .lowElAarch64Sync esr rs rs') →
      ∃ moved, Transfers ops s e s' moved ∧ Kernel.Accounts b reg₀ (t.append moved) s'.kernel.uart :=
    fun s' hs' hother => ⟨.none, .other hother, by rwa [Traffic.append_none]⟩
  cases hstep with
  | program memory spEl0 elrEl1 => exact hnone _ haccounts fun _ _ _ _ he => nomatch he
  | uart m => exact hnone _ (DevUart.Mixed.moves haccounts (.move _ m)) fun _ _ _ _ he => nomatch he
  | time n => exact hnone _ haccounts fun _ _ _ _ he => nomatch he
  | @exception _ inputs type esr rs rs' htype hown hrun =>
    obtain ⟨hirq, rfl, hserves⟩ | ⟨rfl, kernel, hcall, rfl⟩ | ⟨-, hsync, rfl, rfl⟩ :=
      h.exception_cases hdevs₀ hcalls₀ hsetup hpower.zero hpower.active hrun
    · have hserved : Kernel.Accounts b reg₀ t s'.kernel.uart := Serves.accounts (s := { s with inputs })
        haccounts hserves
      refine hnone _ hserved fun _ _ _ _ he => ?_
      injection he with _ htype
      rw [htype] at hirq
      exact absurd hirq (by decide)
    · obtain ⟨moved, htransfers, hnext⟩ := haccounts.call hdevs₀ hcalls₀ hcall
      exact ⟨moved, .call htransfers, hnext⟩
    · refine hnone _ haccounts fun _ _ _ _ he => ?_
      injection he with _ htype
      exact hsync htype

end Steps

theorem SetUp.accounts {tables : Tables M} {s₀ s₁ : System M} (hpower : PowerOn b s₀)
    (h : SetUp b ops progs s₀ tables s₁) :
    Kernel.Accounts b s₀.kernel.uart.reg .none s₁.kernel.uart := by
  rw [h.uart]
  exact DevUart.init_mixed hpower.fifo hpower.sent hpower.arrived _ _

/-- No byte of a program is lost, made up, sent twice or put out of order, whatever programs
do. Along every run from power-on, the bytes that kernel calls told programs they took, put
out or gave back are a record `t` carried by the steps, and in every state reached: the bytes
taken are those given on by the transmit ring, then those in it; what was written to the
device is a merge of the bytes given on with those put out past the ring, each in their
order; what was read from it is what programs were given, then the receive ring; a write
always follows a look that found room and a read one that found a byte, with room in the
ring; and while bytes wait in the transmit ring the device will ask for them. The FIFOs
account for the rest of the way to the line. -/
theorem traffic_accounted (b : Board) (ops : MemoryOps M) (progs : KprocProgTab) {s₀ : System M}
    (hpower : PowerOn b s₀) :
    ∃ tables s₁, kernelMain b ops progs s₀ = some (tables, s₁) ∧
      ∀ es s, Exec (fun s e s' => Step b tables s e s' ∧ e.Counted) s₁ es s →
        ∃ t, Exec (Records b ops tables) (s₁, .none) es (s, t) ∧
          (∃ given, t.accepted = given ++ s.kernel.uart.tx.toList ∧
            Merge given t.polled (DevUart.written s.kernel.uart.log)) ∧
          DevUart.popped s.kernel.uart.log = t.delivered ++ s.kernel.uart.rx.toList ∧
          DevUart.Checked s.kernel.uart.log ∧
          (s.kernel.uart.tx.toList ≠ [] → DevUart.Pending b s.kernel.uart) ∧
          s₀.kernel.uart.reg.txFifo ++ DevUart.written s.kernel.uart.log =
            s.kernel.uart.reg.sent ++ s.kernel.uart.reg.txFifo ∧
          s₀.kernel.uart.reg.rxFifo ++ s.kernel.uart.reg.arrived =
            DevUart.popped s.kernel.uart.log ++ s.kernel.uart.reg.rxFifo := by
  obtain ⟨tables, s₁, hmain, hsetup⟩ := kernelMain_spec b ops progs hpower.capacity hpower.empty
  obtain ⟨kdevs₀, -, hdevs₀⟩ := Kernel.setupDevices_lists b ops
  obtain ⟨kcalls₀, -, hcalls₀⟩ := Kernel.setupSyscalls_lists ops progs kdevs₀
  refine ⟨tables, s₁, hmain, fun es s hrun => ?_⟩
  obtain ⟨t, hrecords, -, haccounts⟩ := hrun.ghost (R := Records b ops tables)
    (I := fun s t => Running b ops progs kcalls₀ s₁.gic s ∧
      Kernel.Accounts b s₀.kernel.uart.reg t s.kernel.uart)
    (fun s e s' t ⟨hrunning, haccounts⟩ ⟨hstep, _⟩ => by
      obtain ⟨moved, htransfers, hnext⟩ := hrunning.traffic hdevs₀ hcalls₀ hpower hsetup haccounts hstep
      exact ⟨t.append moved, ⟨hstep, moved, htransfers, rfl⟩,
        hrunning.step hdevs₀ hcalls₀ hsetup hpower.zero hpower.active hstep, hnext⟩)
    ⟨hsetup.running hpower kcalls₀, hsetup.accounts hpower⟩
  exact ⟨t, hrecords, haccounts.line, haccounts.sound.popped, haccounts.sound.checked, haccounts.pending,
    haccounts.sound.sent, haccounts.sound.arrived⟩

theorem traffic_accounted_resetSystem :
    ∃ tables s₁,
      kernelMain UartSession.slowBoard Machine.oneTable Machine.noText resetSystem = some (tables, s₁) ∧
      ∀ es s, Exec (fun s e s' => Step UartSession.slowBoard tables s e s' ∧ e.Counted) s₁ es s →
        ∃ t, Exec (Records UartSession.slowBoard Machine.oneTable tables) (s₁, .none) es (s, t) ∧
          (∃ given, t.accepted = given ++ s.kernel.uart.tx.toList ∧
            Merge given t.polled (DevUart.written s.kernel.uart.log)) ∧
          DevUart.popped s.kernel.uart.log = t.delivered ++ s.kernel.uart.rx.toList ∧
          DevUart.Checked s.kernel.uart.log ∧
          (s.kernel.uart.tx.toList ≠ [] → DevUart.Pending UartSession.slowBoard s.kernel.uart) ∧
          resetSystem.kernel.uart.reg.txFifo ++ DevUart.written s.kernel.uart.log =
            s.kernel.uart.reg.sent ++ s.kernel.uart.reg.txFifo ∧
          resetSystem.kernel.uart.reg.rxFifo ++ s.kernel.uart.reg.arrived =
            DevUart.popped s.kernel.uart.log ++ s.kernel.uart.reg.rxFifo :=
  traffic_accounted UartSession.slowBoard Machine.oneTable Machine.noText resetSystem_powerOn

end System
end PiVOS
