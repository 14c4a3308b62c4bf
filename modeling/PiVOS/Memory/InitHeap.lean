-- SUMMARY: The pages `memory_init` takes: what it reserves, and the pages its tables are on.
import PiVOS.Memory.Init

/-!
# The heap after initialisation

`memory_init` reserves the low pages up to the end of the bitmap and the window of the
peripherals. What is between them is a hole of free pages, and single pages come from
its lower end, one after the other.
-/

namespace PiVOS
namespace MemoryAllocator

variable {a : MemoryAllocator} {lo hi : Nat}

/-! ## Holes -/

/-- In an allocator of 4 KB pages, those from `lo` up to `hi` are free and none before them is. -/
structure Hole (a : MemoryAllocator) (lo hi : Nat) : Prop where
  pageSize : a.pageSize = 4096
  managed : hi ≤ a.managed
  small : a.managed ≤ 2 ^ 32
  below : ∀ k < lo, a.isClaimed k = true
  free : ∀ k, lo ≤ k → k < hi → a.isClaimed k = false

theorem Hole.firstFreePage (h : a.Hole lo hi) (hlt : lo < hi) : a.firstFreePage = some lo := by
  refine firstFreePage_eq h.small ⟨⟨Nat.lt_of_lt_of_le hlt h.managed, h.free lo (Nat.le_refl lo) hlt⟩,
    fun k hk => ?_⟩
  by_contra hlow
  have hclaimed := h.below k (Nat.not_le.mp hlow)
  rw [hk.2] at hclaimed
  cases hclaimed

theorem Hole.claimPage_eq (h : a.Hole lo hi) (hlt : lo < hi) :
    a.claimPage = (lo * 4096, a.claimSpecificPage lo) := by
  have hmanaged := h.managed
  have hsmall := h.small
  rw [claimPage_some (h.firstFreePage hlt), MemoryAllocator.getAddress, h.pageSize,
    u64_of_lt (by omega)]

theorem Hole.claimSpecificPage (h : a.Hole lo hi) : (a.claimSpecificPage lo).Hole (lo + 1) hi where
  pageSize := h.pageSize
  managed := h.managed
  small := h.small
  below k hk := by
    rw [isClaimed_claimSpecificPage]
    rcases Nat.lt_succ_iff_lt_or_eq.mp hk with hlt | rfl
    · rw [h.below k hlt, Bool.true_or]
    · rw [decide_eq_true rfl, Bool.or_true]
  free k hlo hhi := by
    rw [isClaimed_claimSpecificPage, h.free k (by omega) hhi, decide_eq_false (by omega : ¬k = lo),
      Bool.false_or]

/-- Claiming pages one by one takes them from the lower end of the hole. -/
theorem Hole.claimPageTimes {n : Nat} (h : a.Hole lo hi) (hn : lo + n ≤ hi) :
    (a.claimPageTimes n).1 = (List.range' lo n).map (· * 4096) ∧
      (a.claimPageTimes n).2.Hole (lo + n) hi ∧
      (∀ k, (a.claimPageTimes n).2.isClaimed k = (a.isClaimed k || decide (lo ≤ k ∧ k < lo + n))) := by
  induction n generalizing a lo with
  | zero =>
    refine ⟨rfl, h, fun k => ?_⟩
    rw [decide_eq_false (by omega), Bool.or_false]
    rfl
  | succ n ih =>
    have hpage := h.claimPage_eq (by omega)
    obtain ⟨haddrs, hrest, hbits⟩ := ih h.claimSpecificPage (by omega)
    simp only [MemoryAllocator.claimPageTimes, hpage]
    refine ⟨?_, ?_, fun k => ?_⟩
    · rw [haddrs, List.range'_succ, List.map_cons]
    · rwa [Nat.add_comm n 1, ← Nat.add_assoc]
    · rw [hbits, isClaimed_claimSpecificPage, Bool.or_assoc, ← Bool.decide_or]
      congr 2
      apply propext
      omega

/-! ## The reserved pages -/

theorem isClaimed_claimRange (p count : Nat) {fromAddr toAddr : Nat} (hsize : a.pageSize = 4096)
    (hcount : 0 < count) (hfit : p + count < 2 ^ 32) (hfrom : clearKernelSpace fromAddr = p * 4096)
    (hto : clearKernelSpace toAddr = (p + count) * 4096) (k : Nat) :
    (a.claimRange fromAddr toAddr).isClaimed k =
      (a.isClaimed k || decide (p ≤ k ∧ k < p + count)) := by
  have hpos : 0 < a.pageSize := by omega
  rw [← hsize] at hfrom hto
  rw [claimRange, getPageNumber_eq hpos (by omega) hfrom, rangePages_eq hpos hcount hfit hfrom hto,
    isClaimed_claimMultiplePages hfit]

end MemoryAllocator

open MemoryAllocator

theorem pageEnd_eq (p bytes : Nat) :
    (p * 4096 + bytes + 4095) / 4096 * 4096 = (p + (bytes + 4095) / 4096) * 4096 := by
  omega

/-- The first page behind the bitmap of a RAM of `size` bytes. -/
def firstFree (image size : Nat) : Nat := image / 4096 + (size / 4096 / 64 * 8 + 4095) / 4096

variable {image size : Nat}

/-- The bitmap starts at the end of the image, and everything before the first free
page and in the peripherals' window is reserved. -/
theorem memoryInitAllocator_isClaimed (memory : Nat → BitVec 64) (hpage : image % 4096 = 0)
    (himage : image ≠ 0 ∧ image < 2 ^ 29) (hlow : 2 ^ 32 ≤ size) (hhigh : size ≤ 2 ^ 39) {k : Nat}
    (hk : k < size / 4096 / 64 * 64) :
    (memoryInitAllocator memory (setKernelSpace image) size).isClaimed k =
      decide (k < firstFree image size ∨ 0xF0000 ≤ k ∧ k < 0x100000) := by
  have hnumber : u32 (size / mmuPageSize) = size / 4096 := by
    rw [mmuPageSize_eq]
    exact u32_of_lt (by omega)
  have hup : (image + 4095) / 4096 * 4096 = image := by omega
  have hclaims := @initClaims_eq image size (by omega) (by omega)
  rw [hup] at hclaims
  obtain ⟨p, hp⟩ : ∃ p, p = image / 4096 := ⟨_, rfl⟩
  obtain ⟨count, hcount⟩ : ∃ count, count = (size / 4096 / 64 * 8 + 4095) / 4096 := ⟨_, rfl⟩
  have hstart : image = p * 4096 := by omega
  have hend : (image + size / 4096 / 64 * 8 + 4095) / 4096 * 4096 = (p + count) * 4096 := by
    rw [hstart, pageEnd_eq, hcount]
  have hclear : ∀ addr, addr < 2 ^ 48 → clearKernelSpace (addr + kernelSpaceMask) = addr :=
    fun addr => clearKernelSpace_add_mask
  have hcleared : (MemoryAllocator.cleared memory (size / 4096) 4096).isClaimed k = false := by
    have hword : k / 64 < size / 4096 / 64 := by omega
    have hzero : (MemoryAllocator.cleared memory (size / 4096) 4096).bitmap (k / 64) = 0#64 :=
      if_pos hword
    rw [isClaimed, pageBit, hzero, BitVec.getMsbD_zero]
  rw [memoryInitAllocator_eq, hclaims, hnumber, mmuPageSize_eq, List.foldl_cons, List.foldl_cons,
    List.foldl_cons, List.foldl_nil, hend]
  rw [isClaimed_claimRange 0xF0000 0x10000 (by simp [MemoryAllocator.cleared])
      (by decide) (by decide) (by decide) (by decide),
    isClaimed_claimRange 0 p (by simp [MemoryAllocator.cleared]) (by omega)
      (by omega) (clearKernelSpace_of_lt (by decide))
      (by rw [clearKernelSpace_of_lt (by omega), Nat.zero_add, hstart]),
    isClaimed_claimRange p count (by simp [MemoryAllocator.cleared]) (by omega)
      (by omega) (by rw [hclear _ (by omega), hstart]) (hclear _ (by omega)), hcleared,
    Bool.false_or, ← Bool.decide_or, ← Bool.decide_or, firstFree, ← hp, ← hcount]
  apply decide_eq_decide.mpr
  omega

theorem memoryInitAllocator_bitmapEntryCount (memory : Nat → BitVec 64) (kernelEnd : Nat)
    (hhigh : size ≤ 2 ^ 39) :
    (memoryInitAllocator memory kernelEnd size).bitmapEntryCount = size / 4096 / 64 := by
  have hnumber : u32 (size / mmuPageSize) = size / 4096 := by
    rw [mmuPageSize_eq]
    exact u32_of_lt (by omega)
  rw [memoryInitAllocator_eq, hnumber]
  simp [initClaims, MemoryAllocator.cleared, pagesPerEntry]

theorem memoryInitAllocator_pageSize (memory : Nat → BitVec 64) (kernelEnd size : Nat) :
    (memoryInitAllocator memory kernelEnd size).pageSize = 4096 := by
  rw [memoryInitAllocator_eq]
  simp [initClaims, MemoryAllocator.cleared, mmuPageSize_eq]

/-- Between the bitmap and the peripherals all pages are free. -/
theorem memoryInitAllocator_hole (memory : Nat → BitVec 64) (hpage : image % 4096 = 0)
    (himage : image ≠ 0 ∧ image < 2 ^ 29) (hlow : 2 ^ 32 ≤ size) (hhigh : size ≤ 2 ^ 39) :
    (memoryInitAllocator memory (setKernelSpace image) size).Hole (firstFree image size) 0xF0000 := by
  have hbits := fun {k : Nat} => memoryInitAllocator_isClaimed memory hpage himage hlow hhigh (k := k)
  have hfirst : firstFree image size ≤ 0xF0000 := by
    rw [firstFree]
    omega
  have hmanaged : (memoryInitAllocator memory (setKernelSpace image) size).managed =
      size / 4096 / 64 * 64 := by
    rw [managed, memoryInitAllocator_bitmapEntryCount memory _ hhigh, pagesPerEntry]
  refine ⟨memoryInitAllocator_pageSize .., ?_, ?_, fun k hk => ?_, fun k hlo hhi => ?_⟩
  · rw [hmanaged]
    omega
  · rw [hmanaged]
    omega
  · rw [hbits (by omega), decide_eq_true (.inl hk)]
  · rw [hbits (by omega), decide_eq_false (by omega)]

/-! ## The pages of the tables -/

theorem pagesAlloc_single (a : MemoryAllocator) : allocatorPages.pagesAlloc a 1 1 = a.claimPage := by
  have hpage : (a.firstFreePage.map a.getAddress).getD null = a.claimPage.1 := by
    rw [claimPage]
    split <;> simp [*]
  have hcall : allocatorPages.pagesAlloc a 1 1 =
      ((a.firstFreePage.map a.getAddress).getD null, a.claimPage.2) := rfl
  rw [hcall, hpage]

theorem MemoryAllocator.claimPageTimes_succ_last (n : Nat) (a : MemoryAllocator) :
    a.claimPageTimes (n + 1) = ((a.claimPageTimes n).1 ++ [(a.claimPageTimes n).2.claimPage.1],
      (a.claimPageTimes n).2.claimPage.2) := by
  induction n generalizing a with
  | zero => rfl
  | succ n ih =>
    have hfirst : ∀ n, a.claimPageTimes (n + 1) = (a.claimPage.1 :: (a.claimPage.2.claimPageTimes n).1,
        (a.claimPage.2.claimPageTimes n).2) := fun _ => rfl
    rw [hfirst (n + 1), ih, hfirst n]
    rfl

theorem MemoryAllocator.claimPageTimes_length (n : Nat) (a : MemoryAllocator) :
    (a.claimPageTimes n).1.length = n := by
  induction n generalizing a with
  | zero => rfl
  | succ n ih => exact congrArg (· + 1) (ih _)

theorem MemoryAllocator.claimPageTimes_bitmapEntryCount (n : Nat) (a : MemoryAllocator) :
    (a.claimPageTimes n).2.bitmapEntryCount = a.bitmapEntryCount := by
  induction n generalizing a with
  | zero => rfl
  | succ n ih => exact (ih _).trans a.claimPage_bitmapEntryCount

namespace Mmu

/-- The tables since `s` are on pages claimed one by one, and nothing else is claimed. -/
def TablesTaken (s s' : Mmu MemoryAllocator) : Prop :=
  ∃ n, s'.heap = (s.heap.claimPageTimes n).2 ∧
    s'.tables = (s.heap.claimPageTimes n).1.reverse ++ s.tables

/-- One-to-one mapping asks the allocator for the pages of its tables only. -/
theorem Steps.tablesTaken {s s' : Mmu MemoryAllocator}
    (h : Steps allocatorPages getPhysSpaceOneToOne s s') : TablesTaken s s' := by
  induction h with
  | refl => exact ⟨0, rfl, rfl⟩
  | tail _ hstep ih =>
    obtain ⟨n, hheap, htables⟩ := ih
    cases hstep with
    | write => exact ⟨n, hheap, htables⟩
    | assert => exact ⟨n, hheap, htables⟩
    | getPhysSpace => exact ⟨n, hheap, htables⟩
    | createTable =>
      refine ⟨n + 1, ?_, ?_⟩
      · rw [claimPageTimes_succ_last, ← hheap, ← pagesAlloc_single]
        rfl
      · rw [claimPageTimes_succ_last, createTable_tables, newPage, pagesAlloc_single, hheap, htables]
        simp

end Mmu

end PiVOS
