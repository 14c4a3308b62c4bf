-- SUMMARY: Interrupt configuration in the distributor registers, from `dev/gicv2.c`.
import PiVOS.Lib.Packed
import PiVOS.Log

/-!
# The interrupt controller

The registers of the distributor that `gicv2.c` configures interrupts with, and the
device bound to each interrupt. Several interrupts share a register, so a setter
reads it, replaces its interrupt's field and writes it back. A function gives `none`
where the source would access an array outside its bounds.
-/

namespace PiVOS

/-- `struct dev_gicv2_params`, with the fields a registration reads. -/
structure DevGicv2Params where
  priority : BitVec 8
  cpu : BitVec 8
  trigger : BitVec 8

structure Gicv2 where
  igroupr : Vector (BitVec 32) 32
  ipriorityr : Vector (BitVec 32) 256
  itargetsr : Vector (BitVec 32) 256
  icfgr : Vector (BitVec 32) 64
  irqDevices : Vector Int 1024

namespace Gicv2

/-! ## Setters -/

def setIntPriority (g : Gicv2) (id : Nat) (priority : BitVec 8) : Option Gicv2 := do
  let reg := id / 4
  let shift := id % 4 * 8
  let ipriorityr ← Packed.update g.ipriorityr reg shift 0xFF (priority.setWidth 32)
  return { g with ipriorityr }

def setIntTarget (g : Gicv2) (id : Nat) (cpu : BitVec 8) : Option Gicv2 := do
  let reg := id / 4
  let shift := id % 4 * 8
  let itargetsr ← Packed.update g.itargetsr reg shift 0xFF (cpu.setWidth 32)
  return { g with itargetsr }

def setIntGroup (g : Gicv2) (id : Nat) (group : BitVec 8) : Option Gicv2 := do
  let reg := id / 32
  let shift := id % 32
  let igroupr ← Packed.update g.igroupr reg shift 1 (group.setWidth 32)
  return { g with igroupr }

def setIntTrigger (g : Gicv2) (id : Nat) (trigger : BitVec 8) : Option Gicv2 := do
  let reg := id / 16
  let shift := id % 16 * 2
  let icfgr ← Packed.update g.icfgr reg shift 0x3 (trigger.setWidth 32)
  return { g with icfgr }

/-- `irq_devices[irq_id] = irq_dev_id`. -/
def setIrqDevice (g : Gicv2) (irqId : Nat) (irqDevId : Int) : Option Gicv2 :=
  if h : irqId < 1024 then some { g with irqDevices := g.irqDevices.set irqId irqDevId } else none

def kdevRegisterIrq (g : Gicv2) (irqId : Nat) (irqDevId : Int) (params : DevGicv2Params) :
    Option (Int × Gicv2) := do
  let g ← g.setIntPriority irqId params.priority
  let g ← g.setIntTarget irqId params.cpu
  let g ← g.setIntTrigger irqId params.trigger
  let g ← g.setIrqDevice irqId irqDevId
  return (Kstatus.devGicOk, g)

/-! ## Configurations -/

/-- What is set up for one interrupt. -/
@[ext] structure IrqConfig where
  priority : BitVec 8
  target : BitVec 8
  trigger : BitVec 2
  device : Int

/-- The configuration of interrupt `id`. -/
def config (g : Gicv2) (id : Nat) : IrqConfig where
  priority := Packed.field 8 4 g.ipriorityr id
  target := Packed.field 8 4 g.itargetsr id
  trigger := Packed.field 2 16 g.icfgr id
  device := g.irqDevices[id]?.getD 0

/-- A call of `dev_gicv2_kdev_register_irq`. -/
structure Registration where
  irqId : Nat
  irqDevId : Int
  params : DevGicv2Params

namespace Registration

/-- What the callers keep to: an existing interrupt, and a trigger that fits its field. -/
structure Valid (r : Registration) : Prop where
  irqId : r.irqId < 1024
  trigger : r.params.trigger.toNat < 4

/-- The configuration the call asks for. -/
def config (r : Registration) : IrqConfig where
  priority := r.params.priority
  target := r.params.cpu
  trigger := r.params.trigger.setWidth 2
  device := r.irqDevId

end Registration

def register (g : Gicv2) (r : Registration) : Option Gicv2 :=
  (g.kdevRegisterIrq r.irqId r.irqDevId r.params).map Prod.snd

/-- Registrations one after the other. -/
def registerAll (g : Gicv2) (rs : List Registration) : Option Gicv2 := rs.foldlM register g

/-! ## One registration -/

/-- What the setters share: the fields of 1024 interrupts fill the registers of an array. -/
theorem update_of_id (w per : Nat) {m : Nat} (words : Vector (BitVec 32) m) {id : Nat}
    {mask : BitVec 32} (hmask : mask = BitVec.ofNat 32 (2 ^ w - 1)) (hfull : per * w = 32)
    (hall : m * per = 1024) (hid : id < 1024) {value : BitVec 8} (hvalue : value.toNat < 2 ^ w) :
    ∃ words', Packed.update words (id / per) (id % per * w) mask (value.setWidth 32) = some words' ∧
      ∀ j < 1024, Packed.field w per words' j =
        if j = id then value.setWidth w else Packed.field w per words j := by
  have hper : 0 < per := Nat.pos_of_ne_zero fun h => by
    rw [h, Nat.zero_mul] at hfull
    cases hfull
  have hw : w ≤ 32 := hfull ▸ Nat.le_mul_of_pos_left w hper
  have hreg : ∀ j < 1024, j / per < m := fun j hj =>
    Nat.div_lt_of_lt_mul (by rwa [Nat.mul_comm, hall])
  have hwide : (value.setWidth 32).toNat < 2 ^ w := by
    rwa [BitVec.toNat_setWidth, Nat.mod_eq_of_lt (value.isLt.trans (by decide))]
  obtain ⟨words', hrun, hfield⟩ :=
    Packed.update_field hper (Nat.le_of_eq hfull) words (hreg id hid) hwide
  refine ⟨words', hmask ▸ hrun, fun j hj => ?_⟩
  rw [hfield j (hreg j hj), BitVec.setWidth_setWidth_of_le _ hw]

section Setters

variable (g : Gicv2) {id : Nat} (hid : id < 1024)

include hid

theorem setIntPriority_spec (priority : BitVec 8) :
    ∃ ipriorityr, g.setIntPriority id priority = some { g with ipriorityr } ∧
      ∀ j < 1024, Packed.field 8 4 ipriorityr j =
        if j = id then priority else Packed.field 8 4 g.ipriorityr j := by
  obtain ⟨ipriorityr, hrun, hfield⟩ :=
    update_of_id 8 4 g.ipriorityr (show 0xFF#32 = _ from rfl) rfl rfl hid priority.isLt
  exact ⟨ipriorityr, by simp [setIntPriority, hrun], by simpa using hfield⟩

theorem setIntTarget_spec (cpu : BitVec 8) :
    ∃ itargetsr, g.setIntTarget id cpu = some { g with itargetsr } ∧
      ∀ j < 1024, Packed.field 8 4 itargetsr j =
        if j = id then cpu else Packed.field 8 4 g.itargetsr j := by
  obtain ⟨itargetsr, hrun, hfield⟩ :=
    update_of_id 8 4 g.itargetsr (show 0xFF#32 = _ from rfl) rfl rfl hid cpu.isLt
  exact ⟨itargetsr, by simp [setIntTarget, hrun], by simpa using hfield⟩

theorem setIntTrigger_spec {trigger : BitVec 8} (htrigger : trigger.toNat < 4) :
    ∃ icfgr, g.setIntTrigger id trigger = some { g with icfgr } ∧
      ∀ j < 1024, Packed.field 2 16 icfgr j =
        if j = id then trigger.setWidth 2 else Packed.field 2 16 g.icfgr j := by
  obtain ⟨icfgr, hrun, hfield⟩ :=
    update_of_id 2 16 g.icfgr (show 0x3#32 = _ from rfl) rfl rfl hid htrigger
  exact ⟨icfgr, by simp [setIntTrigger, hrun], hfield⟩

theorem setIrqDevice_spec (irqDevId : Int) :
    ∃ irqDevices, g.setIrqDevice id irqDevId = some { g with irqDevices } ∧
      ∀ j, irqDevices[j]?.getD 0 = if j = id then irqDevId else g.irqDevices[j]?.getD 0 := by
  refine ⟨g.irqDevices.set id irqDevId, dif_pos hid, fun j => ?_⟩
  rw [Vector.getElem?_set]
  by_cases hj : j = id
  · subst hj
    simp
  · simp [hj, Ne.symm hj]

end Setters

/-- A registration configures its interrupt and no other, and touches no groups. -/
theorem kdevRegisterIrq_spec (g : Gicv2) {r : Registration} (h : r.Valid) :
    ∃ g', g.kdevRegisterIrq r.irqId r.irqDevId r.params = some (Kstatus.devGicOk, g') ∧
      g'.igroupr = g.igroupr ∧
      ∀ id < 1024, g'.config id = if id = r.irqId then r.config else g.config id := by
  have hid := h.irqId
  obtain ⟨ipriorityr, hpriority, hpriority'⟩ := g.setIntPriority_spec hid r.params.priority
  obtain ⟨itargetsr, htarget, htarget'⟩ :=
    { g with ipriorityr }.setIntTarget_spec hid r.params.cpu
  obtain ⟨icfgr, htrigger, htrigger'⟩ :=
    { g with ipriorityr, itargetsr }.setIntTrigger_spec hid h.trigger
  obtain ⟨irqDevices, hdevice, hdevice'⟩ :=
    { g with ipriorityr, itargetsr, icfgr }.setIrqDevice_spec hid r.irqDevId
  refine ⟨{ g with ipriorityr, itargetsr, icfgr, irqDevices }, ?_, rfl, fun id hlt => ?_⟩
  · simp [kdevRegisterIrq, hpriority, htarget, htrigger, hdevice]
  · ext1
    all_goals simp only [config, hpriority' id hlt, htarget' id hlt, htrigger' id hlt, hdevice' id]
    all_goals split <;> rfl

/-- The registers and the bindings are what the configurations are. -/
theorem ext_config {g g' : Gicv2} (hgroup : g.igroupr = g'.igroupr)
    (h : ∀ id < 1024, g.config id = g'.config id) : g = g' := by
  have hpriority : g.ipriorityr = g'.ipriorityr := Packed.ext_field 8 4 (by decide) rfl
    fun k hk => congrArg IrqConfig.priority (h k (by omega))
  have htarget : g.itargetsr = g'.itargetsr := Packed.ext_field 8 4 (by decide) rfl
    fun k hk => congrArg IrqConfig.target (h k (by omega))
  have htrigger : g.icfgr = g'.icfgr := Packed.ext_field 2 16 (by decide) rfl
    fun k hk => congrArg IrqConfig.trigger (h k (by omega))
  have hdevice : g.irqDevices = g'.irqDevices := Vector.ext fun i hi => by
    simpa [config, hi] using congrArg IrqConfig.device (h i hi)
  cases g
  cases g'
  simp_all

/-! ## Any number of registrations -/

/-- The last registration of interrupt `id`. -/
def lastOf (id : Nat) (rs : List Registration) : Option Registration :=
  (rs.filter fun r => r.irqId = id).getLast?

theorem lastOf_snoc (id : Nat) (rs : List Registration) (r : Registration) :
    lastOf id (rs ++ [r]) = if id = r.irqId then some r else lastOf id rs := by
  unfold lastOf
  rw [List.filter_append]
  by_cases h : r.irqId = id
  · simp [h]
  · simp [h, Ne.symm h]

/-- After any registrations the configuration of an interrupt is that of its last one. -/
theorem registerAll_spec (g : Gicv2) {rs : List Registration} (h : ∀ r ∈ rs, r.Valid) :
    ∃ g', g.registerAll rs = some g' ∧ g'.igroupr = g.igroupr ∧
      ∀ id < 1024, g'.config id = ((lastOf id rs).map Registration.config).getD (g.config id) := by
  induction rs using List.reverseRecOn with
  | nil => exact ⟨g, rfl, rfl, fun _ _ => rfl⟩
  | append_singleton rs r ih =>
    obtain ⟨g₁, hrun, hgroup, hconfig⟩ := ih fun r' hr' => h r' (List.mem_append_left _ hr')
    obtain ⟨g₂, hstep, hgroup', hconfig'⟩ := g₁.kdevRegisterIrq_spec (h r (by simp))
    refine ⟨g₂, ?_, hgroup'.trans hgroup, fun id hid => ?_⟩
    · rw [registerAll, List.foldlM_append]
      simp only [registerAll] at hrun
      simp [hrun, register, hstep]
    · rw [hconfig' id hid, lastOf_snoc]
      split
      · rfl
      · exact hconfig id hid

/-- Interrupt configurations do not interfere: any registrations stay inside the
arrays and leave every interrupt as its last registration says, or as it was; and
registrations of different interrupts can be made in either order. -/
theorem registrations_apart (g : Gicv2) :
    (∀ rs : List Registration, (∀ r ∈ rs, r.Valid) →
      ∃ g', g.registerAll rs = some g' ∧ ∀ id < 1024,
        g'.config id = ((lastOf id rs).map Registration.config).getD (g.config id)) ∧
    ∀ r₁ r₂ : Registration, r₁.Valid → r₂.Valid → r₁.irqId ≠ r₂.irqId →
      g.registerAll [r₁, r₂] = g.registerAll [r₂, r₁] := by
  refine ⟨fun rs h => ?_, fun r₁ r₂ h₁ h₂ hne => ?_⟩
  · obtain ⟨g', hrun, -, hconfig⟩ := g.registerAll_spec h
    exact ⟨g', hrun, hconfig⟩
  · have hvalid : ∀ r ∈ [r₁, r₂], r.Valid := by simp [h₁, h₂]
    have hvalid' : ∀ r ∈ [r₂, r₁], r.Valid := by simp [h₁, h₂]
    obtain ⟨g', hrun, hgroup, hconfig⟩ := g.registerAll_spec hvalid
    obtain ⟨g'', hrun', hgroup', hconfig'⟩ := g.registerAll_spec hvalid'
    rw [hrun, hrun', ext_config (hgroup.trans hgroup'.symm) fun id hid => ?_]
    rw [hconfig id hid, hconfig' id hid]
    by_cases hid₁ : r₁.irqId = id
    · have hid₂ : r₂.irqId ≠ id := fun h => hne (hid₁.trans h.symm)
      simp [lastOf, hid₁, hid₂]
    · simp [lastOf, hid₁, List.filter_cons]

/-- The registrations of the kernel's setup: the timer and the UART. -/
def setupRegistrations : List Registration :=
  [⟨30, 1, { priority := 0, cpu := 1, trigger := 2 }⟩,
    ⟨153, 2, { priority := 0, cpu := 1, trigger := 2 }⟩]

def idle : Gicv2 :=
  ⟨.replicate 32 0, .replicate 256 0, .replicate 256 0, .replicate 64 0, .replicate 1024 0⟩

theorem registrations_apart_setup :
    ∃ g', idle.registerAll setupRegistrations = some g' ∧ ∀ id < 1024,
      g'.config id =
        ((lastOf id setupRegistrations).map Registration.config).getD (idle.config id) := by
  refine (registrations_apart idle).1 setupRegistrations fun r hr => ?_
  obtain rfl | rfl : r = _ ∨ r = _ := by simpa [setupRegistrations] using hr
  · exact ⟨by decide, by decide⟩
  · exact ⟨by decide, by decide⟩

end Gicv2
end PiVOS
