-- SUMMARY: C integer conversions, kernel address masks and rounding macros of `utils.h`.
import PiVOS.Lib.Word

/-!
# Integers and addresses

Values of `uint32_t` and `uint64_t` are natural numbers below `2 ^ 32` and
`2 ^ 64`; an operation of the source that may leave that range is followed by
`u32` or `u64`. Addresses are the numbers the pointers hold.
-/

namespace PiVOS

/-! ## Fixed-width arithmetic -/

/-- Conversion to `uint32_t`. -/
def u32 (n : Nat) : Nat := n % 2 ^ 32

/-- Conversion to `uint64_t`. -/
def u64 (n : Nat) : Nat := n % 2 ^ 64

/-- Conversion of a `uint32_t` to `int32_t`. -/
def int32 (n : Nat) : Int := (BitVec.ofNat 32 n).toInt

/-- Subtraction of two `uint32_t` values. -/
def sub32 (m n : Nat) : Nat := if n ≤ m then m - n else m + 2 ^ 32 - n

/-- Subtraction of two `uint64_t` values. -/
def sub64 (m n : Nat) : Nat := if n ≤ m then m - n else m + 2 ^ 64 - n

@[simp] theorem u32_of_lt {n : Nat} (h : n < 2 ^ 32) : u32 n = n := Nat.mod_eq_of_lt h
@[simp] theorem u64_of_lt {n : Nat} (h : n < 2 ^ 64) : u64 n = n := Nat.mod_eq_of_lt h

theorem u32_lt (n : Nat) : u32 n < 2 ^ 32 := Nat.mod_lt _ (by decide)
theorem u64_lt (n : Nat) : u64 n < 2 ^ 64 := Nat.mod_lt _ (by decide)

theorem sub32_of_le {m n : Nat} (h : n ≤ m) : sub32 m n = m - n := if_pos h

theorem sub64_of_le {m n : Nat} (h : n ≤ m) : sub64 m n = m - n := if_pos h

/-! ## Addresses -/

def null : Nat := 0

def kernelSpaceMask : Nat := 0xFFFF000000000000

/-- `ptr & ~KERNEL_SPACE_MASK`. -/
def clearKernelSpace (ptr : Nat) : Nat := ptr &&& 0x0000FFFFFFFFFFFF

/-- `ptr | KERNEL_SPACE_MASK`. -/
def setKernelSpace (ptr : Nat) : Nat := ptr ||| kernelSpaceMask

theorem clearKernelSpace_eq (ptr : Nat) : clearKernelSpace ptr = ptr % 2 ^ 48 :=
  Nat.and_two_pow_sub_one_eq_mod ptr 48

theorem clearKernelSpace_of_lt {ptr : Nat} (h : ptr < 2 ^ 48) : clearKernelSpace ptr = ptr := by
  rw [clearKernelSpace_eq, Nat.mod_eq_of_lt h]

theorem setKernelSpace_of_lt {ptr : Nat} (h : ptr < 2 ^ 48) :
    setKernelSpace ptr = ptr + kernelSpaceMask := by
  have := Nat.two_pow_add_eq_or_of_lt h 0xFFFF
  rw [setKernelSpace, Nat.lor_comm, kernelSpaceMask, Nat.add_comm]
  simpa using this.symm

/-- A physical address seen through the kernel half is found again by clearing the mask. -/
theorem clearKernelSpace_setKernelSpace {ptr : Nat} (h : ptr < 2 ^ 48) :
    clearKernelSpace (setKernelSpace ptr) = ptr := by
  rw [setKernelSpace_of_lt h, clearKernelSpace_eq, kernelSpaceMask]
  omega

/-! ## Sizes -/

def kbInB : Nat := 1024
def mbInB : Nat := kbInB * 1024
def gbInB : Nat := mbInB * 1024

/-- `ALIGN_UP` on `uint32_t` operands. -/
def alignUp32 (addr align : Nat) : Nat := Word.alignUp 32 addr align

/-- `ALIGN_UP` on `uint64_t` operands. -/
def alignUp64 (addr align : Nat) : Nat := Word.alignUp 64 addr align

/-- `ALIGN_DOWN` on `uint64_t` operands. -/
def alignDown64 (addr align : Nat) : Nat :=
  (BitVec.ofNat 64 addr &&& ~~~(BitVec.ofNat 64 align - 1#64)).toNat

theorem alignUp64_two_pow {addr j : Nat} (hj : j < 64) (h : addr + 2 ^ j ≤ 2 ^ 64) :
    alignUp64 addr (2 ^ j) = (addr + 2 ^ j - 1) / 2 ^ j * 2 ^ j := by
  have hpos : 0 < 2 ^ j := Nat.two_pow_pos j
  rw [alignUp64, Word.alignUp_two_pow hj, Nat.mod_eq_of_lt (by omega)]

end PiVOS
