-- SUMMARY: Memory contexts and the kernel's address space, from `memory.c`.
import PiVOS.Memory
import PiVOS.Memory.Allocator
import PiVOS.Memory.Mmu

/-!
# Memory contexts

`memory.c` puts the page allocator and the table code together. The allocator's
bitmap has a memory of its own here, apart from the words of the tables: the
pages of the bitmap are claimed before any table is made.
-/

namespace PiVOS

/-- `memory_mmu_init(memory_allocator_claim_pages, memory_allocator_free_pages)`. The rounds are
enough for every search in a bitmap of up to `2 ^ 31` pages. -/
def allocatorPages : PageHeap MemoryAllocator where
  pagesAlloc a number align :=
    (a.claimPages (2 ^ 32 * (number + 1) + number) number align).getD (null, a)
  pagesDealloc a addr number := a.freePages addr number

/-! ## Physical space -/

def getPhysSpaceAlloc : GetPhysSpace MemoryAllocator := fun request a =>
  allocatorPages.pagesAlloc a request.pageCount request.align

def getPhysSpaceOneToOne {A : Type} : GetPhysSpace A := fun request heap =>
  (request.virtAddr, heap)

def getPhysSpace : MemoryMapType → GetPhysSpace MemoryAllocator
  | .alloc => getPhysSpaceAlloc
  | .oneToOne => getPhysSpaceOneToOne

/-! ## Contexts -/

/-- The memory and the allocator. -/
abbrev Memory := Mmu MemoryAllocator

namespace Memory

def memoryCreateContext (m : Memory) : Nat × Memory := m.memoryMmuCreateTable allocatorPages

def memoryDestroyContext (rounds : Nat) (m : Memory) (level0Table : Nat) : Except Mmu.Halt Memory :=
  m.memoryMmuDestroyTable allocatorPages rounds level0Table

def memoryMapRegion (m : Memory) (level0Table : Nat) (region : MemoryRegion)
    (mapType : MemoryMapType) : Memory :=
  m.memoryMmuInsert allocatorPages level0Table 0 region.va region.size region.memoryType
    (getPhysSpace mapType)

end Memory

/-! ## The kernel's address space -/

def peripherialsStart : Nat := 0xF0000000
def peripherialsEnd : Nat := 0x100000000

def normalMemoryRegion1 : MemoryRegion :=
  { memoryType := memoryTypeNormalNoCache, va := 0x0, size := peripherialsStart }

def peripheralsRegion : MemoryRegion :=
  { memoryType := memoryTypeDevice, va := peripherialsStart,
    size := sub64 peripherialsEnd peripherialsStart }

def normalMemoryRegion2 (size : Nat) : MemoryRegion :=
  { memoryType := memoryTypeNormalNoCache, va := peripherialsEnd, size := sub64 size peripherialsEnd }

/-- The allocator part of `memory_init`; `memory` is what the words at the bitmap hold before. -/
def memoryInitAllocator (memory : Nat → BitVec 64) (kernelEnd size : Nat) : MemoryAllocator :=
  let numberOfPages := u32 (size / mmuPageSize)
  let imageSize := clearKernelSpace kernelEnd
  ((MemoryAllocator.init memory (alignUp64 kernelEnd mmuPageSize) numberOfPages mmuPageSize).claimRange
    0 (alignUp64 imageSize mmuPageSize)).claimRange
    (alignDown64 peripherialsStart mmuPageSize) (alignUp64 peripherialsEnd mmuPageSize)

/-- `memory_init` on the memory `mem`, with the linker's symbols `mmu_space_start` and `kernel_end`. -/
def memoryInit (memory : Nat → BitVec 64) (mem : Nat → Nat) (mmuSpaceStart kernelEnd size : Nat) :
    Memory :=
  let m : Memory :=
    { mem, heap := memoryInitAllocator memory kernelEnd size, tables := [], grants := [],
      trapped := false }
  let m := m.memoryMapRegion mmuSpaceStart normalMemoryRegion1 .oneToOne
  let m := m.memoryMapRegion mmuSpaceStart peripheralsRegion .oneToOne
  m.memoryMapRegion mmuSpaceStart (normalMemoryRegion2 size) .oneToOne

end PiVOS
