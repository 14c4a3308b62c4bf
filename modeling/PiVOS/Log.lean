-- SUMMARY: Status codes of `log.h`.

/-!
# Status codes

Every module counts its error codes from `ORIGIN << 16 | 1 << 31`, which is
negative as an `int`.
-/

namespace PiVOS
namespace Kstatus

inductive Origin
  | dev | call | proc | int | utils | devGeneric | devIo | devGic | devTimer

/-- The place of an origin in `enum kstatus_origin`. -/
def Origin.number : Origin → Nat
  | .dev => 0 | .call => 1 | .proc => 2 | .int => 3 | .utils => 4
  | .devGeneric => 5 | .devIo => 6 | .devGic => 7 | .devTimer => 8

/-- `ORIGIN << 16 | 1 << 31` as an `int`. -/
def err (origin : Origin) : Int := (BitVec.ofNat 32 (origin.number <<< 16 ||| 1 <<< 31)).toInt

/-- Error codes are negative. -/
theorem err_add_neg (origin : Origin) {n : Int} (h : n < 0x10000) : err origin + n < 0 := by
  have hlow : err origin ≤ -2 ^ 31 + 8 * 2 ^ 16 := by cases origin <;> decide
  omega

def devInvalid : Int := err .dev + 1
def devAlreadyExists : Int := err .dev + 2
def devOutOfBounds : Int := err .dev + 3

def callAlreadyExists : Int := err .call + 2
def callOutOfBounds : Int := err .call + 3

def procOk : Int := 0
def procStackFull : Int := err .proc + 1
def procLast : Int := err .proc + 2

def devGenericOk : Int := 0
def devGenericNoIsr : Int := err .devGeneric + 1

def devIoOk : Int := 0
def devIoTxWait : Int := err .devIo + 1

def devGicOk : Int := 0

def devTimerOk : Int := 0

end Kstatus
end PiVOS
