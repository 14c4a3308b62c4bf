-- SUMMARY: The timer driver of `dev/generic_timer.c` over a timer that counts on its own.
import PiVOS.Log
import Mathlib.Data.BitVec

/-!
# The generic timer

A reset writes two registers from unions of which it sets some fields only, so the rest is
what the stack held. One of the bits it leaves to chance masks the interrupt.
-/

namespace PiVOS

/-- The functions `timer_action` can point to. -/
inductive TimerAction
  | testAction

/-- The registers of the timer and the variables of its driver. Writing `TVAL` moves the
compare value, with which the counter is compared. -/
structure GenericTimer where
  count : Nat
  compare : Int
  enable : Bool
  imask : Bool
  interval : BitVec 16
  action : Option TimerAction

/-- What a reset reads: the frequency register, and what is in the two unions before their
fields are set. -/
structure TimerInputs where
  cntfrq : BitVec 32
  tval : BitVec 64
  ctl : BitVec 64

namespace GenericTimer

/-- `tval.fields.TimerValue = value`. -/
def setTimerValue (tval : BitVec 64) (value : BitVec 32) : BitVec 64 :=
  tval.extractLsb' 32 32 ++ value

/-- `ctl.fields.ISTATUS = 0` and `ctl.fields.ENABLE = 1`. -/
def setEnable (ctl : BitVec 64) : BitVec 64 :=
  ctl.extractLsb' 3 61 ++ 0#1 ++ ctl.extractLsb' 1 1 ++ 1#1

/-- A write to `CNTP_TVAL_EL0`, of which 32 bits count, as a signed number. -/
def writeTval (t : GenericTimer) (tval : BitVec 64) : GenericTimer :=
  { t with compare := t.count + (tval.setWidth 32).toInt }

/-- A write to `CNTP_CTL_EL0`. -/
def writeCtl (t : GenericTimer) (ctl : BitVec 64) : GenericTimer :=
  { t with enable := ctl.getLsbD 0, imask := ctl.getLsbD 1 }

/-- `freq * interval` in 32 bits. -/
def period (freq : BitVec 32) (interval : BitVec 16) : BitVec 32 := freq * interval.setWidth 32

def reset (inputs : TimerInputs) (t : GenericTimer) : GenericTimer :=
  let freq := inputs.cntfrq
  let tval := setTimerValue inputs.tval (period freq t.interval)
  let ctl := setEnable inputs.ctl
  (t.writeTval tval).writeCtl ctl

/-- `dev_generic_timer_init`. -/
def init (inputs : TimerInputs) (interval : BitVec 16) (t : GenericTimer) : GenericTimer :=
  { t with interval }.reset inputs

/-- `dev_generic_timer_kdev_isr`; none where there is no action to call. The actions do
nothing to the kernel. -/
def kdevIsr (inputs : TimerInputs) (t : GenericTimer) : Option GenericTimer :=
  t.action.map fun | .testAction => t.reset inputs

def kdevSetAction (action : TimerAction) (t : GenericTimer) : GenericTimer :=
  { t with action := some action }

/-- The timer raises its interrupt. -/
def asserted (t : GenericTimer) : Bool := t.enable && !t.imask && decide (t.compare ≤ t.count)

/-- The counter goes on. -/
def tick (t : GenericTimer) (n : Nat) : GenericTimer := { t with count := t.count + n }

/-! ## Resets -/

theorem setWidth_setTimerValue (tval : BitVec 64) (value : BitVec 32) :
    (setTimerValue tval value).setWidth 32 = value := by
  refine BitVec.eq_of_getLsbD_eq fun i hi => ?_
  rw [BitVec.getLsbD_setWidth, setTimerValue, BitVec.getLsbD_append, if_pos hi]
  simp [hi]

theorem getLsbD_setEnable_zero (ctl : BitVec 64) : (setEnable ctl).getLsbD 0 = true := by
  rw [setEnable, BitVec.getLsbD_append, if_pos Nat.zero_lt_one]
  rfl

theorem getLsbD_setEnable_one (ctl : BitVec 64) : (setEnable ctl).getLsbD 1 = ctl.getLsbD 1 := by
  rw [setEnable, BitVec.getLsbD_append, if_neg (Nat.lt_irrefl 1), BitVec.getLsbD_append,
    if_pos Nat.zero_lt_one, BitVec.getLsbD_extractLsb']
  rfl

/-- A reset sets the next interrupt a period ahead, and masks it as the stack has it. -/
theorem reset_eq (inputs : TimerInputs) (t : GenericTimer) : t.reset inputs =
    { t with
      compare := t.count + (period inputs.cntfrq t.interval).toInt
      enable := true
      imask := inputs.ctl.getLsbD 1 } := by
  simp only [reset, writeTval, writeCtl, setWidth_setTimerValue, getLsbD_setEnable_zero,
    getLsbD_setEnable_one]

end GenericTimer
end PiVOS
