-- SUMMARY: The device registry and the I/O device calls of `dev.c`.
import PiVOS.Lib.Table
import PiVOS.Log
import PiVOS.Utils

/-!
# Devices

A device is known by its type, and an I/O device by what its functions do to the
state `S` of the kernel. `none` stands for an access outside the table or through a
slot that holds no device.
-/

namespace PiVOS

/-- The functions of a `struct kdev_io` the kernel calls reach, on a pointer and a
count or on a byte. -/
structure KdevIo (S : Type) where
  write : S → Nat → Nat → Option (Int × S)
  read : S → Nat → Nat → Option (Int × S)
  poolOut : S → UInt8 → Option (Int × S)

/-- A device, by its `type`. -/
inductive Kdev (S : Type)
  | generic
  | io (dev : KdevIo S)
  | gic
  | timer

def kdevBufferSize : Nat := 1024

variable {S : Type}

abbrev Kdevs (S : Type) := Table kdevBufferSize (Kdev S)

/-- Only the upper end of the table is checked. -/
def kdevRegister (kdevs : Kdevs S) (devId : Int) (dev : Kdev S) : Option (Int × Kdevs S) :=
  if kdevBufferSize ≤ devId then some (Kstatus.devOutOfBounds, kdevs) else do
    if (← kdevs.slot devId).isSome then
      return (Kstatus.devAlreadyExists, kdevs)
    return (devId, ← kdevs.bind devId dev)

/-- `kdev_generic_isr`, where `isrOf` gives the function in a device's field `isr`. -/
def kdevGenericIsr (isrOf : Kdev S → Option (S → Option S)) (kdevs : Kdevs S) (devId : Int)
    (s : S) : Option (Int × S) := do
  let kdev ← ← kdevs.slot devId
  match isrOf kdev with
  | none => return (Kstatus.devGenericNoIsr, s)
  | some isr => return (Kstatus.devGenericOk, ← isr s)

/-- What the three I/O calls share: a device of another type is refused. -/
def kdevIo (kdevs : Kdevs S) (devId : Int) (s : S) (call : KdevIo S → Option (Int × S)) :
    Option (Int × S) := do
  let kdev ← ← kdevs.slot devId
  match kdev with
  | .io dev => call dev
  | _ => return (Kstatus.devInvalid, s)

def kdevIoWrite (kdevs : Kdevs S) (devId : Int) (src n : Nat) (s : S) : Option (Int × S) :=
  kdevIo kdevs devId s fun dev => dev.write s src n

def kdevIoRead (kdevs : Kdevs S) (devId : Int) (dst n : Nat) (s : S) : Option (Int × S) :=
  kdevIo kdevs devId s fun dev => dev.read s dst n

def kdevIoPoolOut (kdevs : Kdevs S) (devId : Int) (c : UInt8) (s : S) : Option (Int × S) :=
  kdevIo kdevs devId s fun dev => dev.poolOut s c

/-- Registering the device behind those already there. -/
theorem kdevRegister_next {kdevs : Kdevs S} {devs : List (Kdev S)} (h : kdevs.Lists devs) {i : Int}
    (hi : devs.length = i) (hroom : i < kdevBufferSize) (dev : Kdev S) :
    ∃ kdevs', kdevRegister kdevs i dev = some (i, kdevs') ∧ kdevs'.Lists (devs ++ [dev]) := by
  subst hi
  obtain ⟨kdevs', hbind, hlists⟩ := h.bind (by omega) dev
  refine ⟨kdevs', ?_, hlists⟩
  rw [kdevRegister, if_neg (by omega), h.slots _ (by omega),
    List.getElem?_eq_none (Nat.le_refl _), hbind]
  rfl

theorem kdevIo_of_io {kdevs : Kdevs S} {devId : Int} {dev : KdevIo S}
    (h : kdevs.Bound devId (.io dev)) (s : S) (call : KdevIo S → Option (Int × S)) :
    kdevIo kdevs devId s call = call dev := by
  rw [kdevIo, h]
  rfl

theorem kdevIo_of_other {kdevs : Kdevs S} {devId : Int} {kdev : Kdev S}
    (h : kdevs.Bound devId kdev) (hother : ∀ dev, kdev ≠ .io dev) (s : S)
    (call : KdevIo S → Option (Int × S)) :
    kdevIo kdevs devId s call = some (Kstatus.devInvalid, s) := by
  rw [kdevIo, h]
  cases kdev with
  | io dev => exact absurd rfl (hother dev)
  | generic => rfl
  | gic => rfl
  | timer => rfl

theorem kdevIo_of_unbound {kdevs : Kdevs S} {devId : Int} (h : ∀ kdev, ¬kdevs.Bound devId kdev)
    (s : S) (call : KdevIo S → Option (Int × S)) : kdevIo kdevs devId s call = none := by
  rw [kdevIo]
  cases hslot : kdevs.slot devId with
  | none => rfl
  | some slot =>
    cases slot with
    | none => rfl
    | some kdev => exact absurd hslot (h kdev)

end PiVOS
