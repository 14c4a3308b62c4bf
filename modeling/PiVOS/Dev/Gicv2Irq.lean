-- SUMMARY: Enabling, taking and ending interrupts, from `dev/gicv2.c`.
import PiVOS.Dev.Gicv2

/-!
# Taking interrupts

Reading `IAR` makes an interrupt active, writing its number to `EOIR` ends it. While it is
active the controller holds back everything of its priority, and the driver gives every
interrupt the same one, so that one that is never ended would be the last.
-/

namespace PiVOS

/-- The controller with the registers that decide what is delivered, and the interrupts
that were taken and have not been ended, last first. -/
structure Gic extends Gicv2 where
  isenabler : Vector (BitVec 32) 32
  gicdCtlr : BitVec 32
  giccCtlr : BitVec 32
  giccPmr : BitVec 32
  active : List Nat

/-- What the next reads of `IAR` and `EOIR` give. -/
structure GicInputs where
  iar : BitVec 32
  eoir : BitVec 32

namespace Gic

/-- The interrupt numbers from here on are special: none of them becomes active. -/
def firstSpecial : Nat := 1020

/-! ## The driver -/

def devGicv2Init (g : Gic) : Gic :=
  { g with
    gicdCtlr := Packed.replaceBits g.gicdCtlr 1 1 0
    giccCtlr := Packed.replaceBits g.giccCtlr 1 1 0
    giccPmr := Packed.replaceBits g.giccPmr 0xFF 0xFF 0 }

/-- `dev_gicv2_kdev_enable_irq`; the ones written to `ISENABLER` are set, the zeros do nothing. -/
def kdevEnableIrq (g : Gic) (irqId : Nat) : Option (Int × Gic) :=
  let reg := irqId / 32
  let shift := irqId % 32
  let newVal := 1#32 <<< shift
  if h : reg < 32 then
    some (Kstatus.devGicOk, { g with isenabler := g.isenabler.set reg (g.isenabler[reg] ||| newVal) })
  else none

def kdevRegisterIrq (g : Gic) (irqId : Nat) (irqDevId : Int) (params : DevGicv2Params) :
    Option (Int × Gic) :=
  (g.toGicv2.kdevRegisterIrq irqId irqDevId params).map fun (status, dist) =>
    (status, { g with toGicv2 := dist })

/-- `iar.fields.InterruptID`. -/
def interruptId (iar : BitVec 32) : Nat := (iar.extractLsb' 0 10).toNat

/-- `eoir.fields.EOIINTID = irq_id`. -/
def setEoiIntId (eoir : BitVec 32) (irqId : Nat) : BitVec 32 :=
  eoir.extractLsb' 10 22 ++ BitVec.ofNat 10 irqId

/-- `gicv2_get_irq_id`. -/
def getIrqId (inputs : GicInputs) (g : Gic) : Nat × Gic :=
  let irqId := interruptId inputs.iar
  (irqId, if irqId < firstSpecial then { g with active := irqId :: g.active } else g)

/-- `gicv2_end_isr`, which reads the register it is to write. -/
def endIsr (inputs : GicInputs) (irqId : Nat) (g : Gic) : Gic :=
  let eoir := setEoiIntId inputs.eoir irqId
  { g with active := g.active.erase (interruptId eoir) }

/-! ## Enabled interrupts -/

/-- Interrupt `id` is enabled. -/
def enabled (g : Gic) (id : Nat) : Bool := (Packed.field 1 32 g.isenabler id).getLsbD 0

/-- Interrupt `id` is delivered to the kernel when it is pending and nothing is active. The
first 32 interrupts belong to a core, the others go to the cores they are targeted at. -/
def delivers (g : Gic) (id : Nat) : Bool :=
  g.gicdCtlr.getLsbD 0 && g.giccCtlr.getLsbD 0 && g.enabled id &&
    decide ((g.config id).priority.toNat < (g.giccPmr.setWidth 8).toNat) &&
    (decide (id < 32) || (g.config id).target.getLsbD 0)

theorem enabled_eq {g : Gic} {id : Nat} (hid : id / 32 < 32) :
    g.enabled id = g.isenabler[id / 32].getLsbD (id % 32) := by
  rw [enabled, Packed.field_eq hid, BitVec.getLsbD_extractLsb']
  simp

/-- Enabling an interrupt enables no other one and disables none. -/
theorem kdevEnableIrq_spec (g : Gic) {irqId : Nat} (hid : irqId < 1024) :
    ∃ isenabler, g.kdevEnableIrq irqId = some (Kstatus.devGicOk, { g with isenabler }) ∧
      ∀ j < 1024, { g with isenabler }.enabled j = (decide (j = irqId) || g.enabled j) := by
  have hreg : irqId / 32 < 32 := by omega
  refine ⟨_, dif_pos hreg, fun j hj => ?_⟩
  have hj : j / 32 < 32 := by omega
  rw [enabled_eq hj, enabled_eq hj]
  simp only
  rw [Vector.getElem_set]
  by_cases hword : irqId / 32 = j / 32
  · have hbit : decide (j % 32 = irqId % 32) = decide (j = irqId) := decide_eq_decide.mpr (by omega)
    have hone : (1#32 <<< (irqId % 32)).getLsbD (j % 32) = decide (j % 32 = irqId % 32) := by
      rw [BitVec.getLsbD_shiftLeft, BitVec.getLsbD_one, decide_eq_true (Nat.mod_lt j (by decide))]
      by_cases heq : j % 32 = irqId % 32
      · simp [heq]
      · have hne : j % 32 < irqId % 32 ∨ j % 32 - irqId % 32 ≠ 0 := by omega
        rcases hne with hlt | hne
        · simp [hlt, heq]
        · simp [hne, heq]
    rw [if_pos hword, BitVec.getLsbD_or, hone, hbit, Bool.or_comm]
    simp only [hword]
  · have hne : j ≠ irqId := fun heq => hword (by rw [heq])
    rw [if_neg hword, decide_eq_false hne, Bool.false_or]

theorem kdevRegisterIrq_spec (g : Gic) {r : Gicv2.Registration} (h : r.Valid) :
    ∃ dist, g.kdevRegisterIrq r.irqId r.irqDevId r.params =
        some (Kstatus.devGicOk, { g with toGicv2 := dist }) ∧
      ∀ id < 1024, dist.config id = if id = r.irqId then r.config else g.config id := by
  obtain ⟨dist, hrun, -, hconfig⟩ := g.toGicv2.kdevRegisterIrq_spec h
  exact ⟨dist, by rw [kdevRegisterIrq, hrun]; rfl, hconfig⟩

theorem devGicv2Init_enables (g : Gic) : g.devGicv2Init.gicdCtlr.getLsbD 0 = true ∧
    g.devGicv2Init.giccCtlr.getLsbD 0 = true ∧ g.devGicv2Init.giccPmr.setWidth 8 = 0xFF#8 := by
  have hone : ∀ word : BitVec 32, (Packed.replaceBits word 1 1 0).getLsbD 0 = true := fun word => by
    simp [Packed.replaceBits]
  refine ⟨hone _, hone _, BitVec.eq_of_getLsbD_eq fun i hi => ?_⟩
  have hbit := Packed.getLsbD_replaceBits g.giccPmr (show (0xFF#32).toNat < 2 ^ 8 by decide) 0
    (show i < 32 by omega)
  rw [if_pos (by omega), Nat.sub_zero] at hbit
  rw [BitVec.getLsbD_setWidth, decide_eq_true hi, Bool.true_and]
  refine hbit.trans ?_
  have hall : ∀ i < 8, (0xFF#32).getLsbD i = (0xFF#8).getLsbD i := by decide
  exact hall i hi

/-- `g'` is `g` with one interrupt registered and enabled. -/
structure TakesOn (g : Gic) (r : Gicv2.Registration) (g' : Gic) : Prop where
  config : ∀ id < 1024, g'.config id = if id = r.irqId then r.config else g.config id
  enabled : ∀ id < 1024, g'.enabled id = (decide (id = r.irqId) || g.enabled id)
  control : g'.gicdCtlr = g.gicdCtlr ∧ g'.giccCtlr = g.giccCtlr ∧ g'.giccPmr = g.giccPmr
  active : g'.active = g.active

theorem takesOn_spec (g : Gic) {r : Gicv2.Registration} (h : r.Valid) :
    ∃ g₁ g₂, g.kdevRegisterIrq r.irqId r.irqDevId r.params = some (Kstatus.devGicOk, g₁) ∧
      g₁.kdevEnableIrq r.irqId = some (Kstatus.devGicOk, g₂) ∧ g.TakesOn r g₂ := by
  obtain ⟨dist, hregister, hconfig⟩ := g.kdevRegisterIrq_spec h
  obtain ⟨isenabler, henable, henabled⟩ := { g with toGicv2 := dist }.kdevEnableIrq_spec h.irqId
  exact ⟨_, _, hregister, henable, hconfig, henabled, ⟨rfl, rfl, rfl⟩, rfl⟩

/-! ## Active interrupts -/

theorem interruptId_lt (iar : BitVec 32) : interruptId iar < 1024 := (iar.extractLsb' 0 10).isLt

/-- What is written to `EOIR` names the interrupt, whatever was read from it. -/
theorem interruptId_setEoiIntId (eoir : BitVec 32) {irqId : Nat} (hid : irqId < 1024) :
    interruptId (setEoiIntId eoir irqId) = irqId := by
  have hlow : (setEoiIntId eoir irqId).extractLsb' 0 10 = BitVec.ofNat 10 irqId := by
    refine BitVec.eq_of_getLsbD_eq fun i hi => ?_
    rw [BitVec.getLsbD_extractLsb', setEoiIntId, BitVec.getLsbD_append, Nat.zero_add, if_pos hi,
      decide_eq_true hi, Bool.true_and]
  rw [interruptId, hlow, BitVec.toNat_ofNat, Nat.mod_eq_of_lt hid]

/-- No special number is active. -/
def ActiveValid (g : Gic) : Prop := ∀ id ∈ g.active, id < firstSpecial

theorem irqDevices_getIrqId (g : Gic) (inputs : GicInputs) :
    (g.getIrqId inputs).2.irqDevices = g.irqDevices := by
  simp only [getIrqId]
  split <;> rfl

/-- Ending an interrupt undoes taking it, whatever the registers give in between. -/
theorem endIsr_getIrqId {g : Gic} (hvalid : g.ActiveValid) (inputs inputs' : GicInputs) :
    (g.getIrqId inputs).2.endIsr inputs' (g.getIrqId inputs).1 = g := by
  have hback := interruptId_setEoiIntId inputs'.eoir (interruptId_lt inputs.iar)
  simp only [endIsr, hback, getIrqId]
  by_cases hnormal : interruptId inputs.iar < firstSpecial
  · rw [if_pos hnormal, List.erase_cons_head]
  · rw [if_neg hnormal, List.erase_of_not_mem fun hmem => hnormal (hvalid _ hmem)]

end Gic
end PiVOS
