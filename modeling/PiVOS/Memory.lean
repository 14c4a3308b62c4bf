-- SUMMARY: The interface of `memory.h`: contexts, regions and what the kernel asks of them.
import PiVOS.Utils

namespace PiVOS

inductive MemoryMapType
  | alloc
  | oneToOne
deriving DecidableEq

/-- The numbers stand for places in `MAIR_EL1`. -/
def memoryTypeNormalNoCache : Nat := 0
def memoryTypeDevice : Nat := 1

structure MemoryRegion where
  memoryType : Nat
  va : Nat
  size : Nat

/-- How memory is used. -/
inductive Access
  | load
  | store
deriving DecidableEq

/-- The operations of `memory.h` on memory states `M`, and the bytes at the addresses of a
program whose tables are at `ttbr0`. A context is the pointer to its level-0 table.
`reaches` says whether an access by the kernel to such an address goes through. -/
structure MemoryOps (M : Type) where
  createContext : M → Nat × M
  destroyContext : M → Nat → M
  mapRegion : M → Nat → MemoryRegion → MemoryMapType → M
  load : M → (ttbr0 va : Nat) → UInt8
  store : M → (ttbr0 va : Nat) → UInt8 → M
  reaches : M → (ttbr0 : Nat) → Access → (va : Nat) → Bool

namespace MemoryOps

variable {M : Type} (ops : MemoryOps M) (ttbr0 : Nat)

/-- `bytecpy` of `bytes` to `va`. -/
def bytecpy : Nat → List UInt8 → M → M
  | _, [], m => m
  | va, c :: bytes, m => bytecpy (u64 (va + 1)) bytes (ops.store m ttbr0 va c)

/-- The same to an address that a program has given. Nothing handles a fault of the kernel:
the store that does not go through is made again and again, and there is no memory afterwards. -/
def copyOut : Nat → List UInt8 → M → Option M
  | _, [], m => some m
  | va, c :: bytes, m =>
    if ops.reaches m ttbr0 .store va then copyOut (u64 (va + 1)) bytes (ops.store m ttbr0 va c)
    else none

variable {ops ttbr0} {va : Nat} {bytes : List UInt8} {m m' : M}

theorem bytecpy_of_copyOut (h : ops.copyOut ttbr0 va bytes m = some m') :
    m' = ops.bytecpy ttbr0 va bytes m := by
  induction bytes generalizing va m with
  | nil => exact (Option.some.inj h).symm
  | cons c bytes ih =>
    rw [copyOut] at h
    split_ifs at h
    exact ih h

/-- Of what is copied, every part from the front is. -/
theorem copyOut_of_prefix {front : List UInt8} (hfront : front <+: bytes)
    (h : (ops.copyOut ttbr0 va bytes m).isSome) : (ops.copyOut ttbr0 va front m).isSome := by
  induction front generalizing va m bytes with
  | nil => rfl
  | cons c front ih =>
    obtain ⟨rest, rfl⟩ := hfront
    rw [List.cons_append, copyOut] at h
    rw [copyOut]
    split_ifs at h ⊢
    · exact ih (List.prefix_append front rest) h
    · cases h

end MemoryOps

end PiVOS
