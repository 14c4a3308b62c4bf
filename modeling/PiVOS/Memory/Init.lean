-- SUMMARY: `memory_init`: its calls of the allocator and the mapper, and the RAM sizes for which their arithmetic is safe.
import PiVOS.Memory.AllocatorClaims
import PiVOS.Memory.Contexts
import PiVOS.Memory.Mmu.Calls

/-!
# Initialising the memory

`memory_init` claims three ranges of pages and maps three regions. The addresses
and counts of these calls are computed from the size of the RAM and the end of the
kernel's image, before any memory is read.
-/

namespace PiVOS

/-! ## The words of a claim -/

namespace MemoryAllocator

variable {a : MemoryAllocator} {p count : Nat}

/-- Claiming the range writes the word `entry` of the bitmap in some round. -/
def ClaimWrites (a : MemoryAllocator) (fromAddr toAddr entry : Nat) : Prop :=
  ∃ rounds, (a.claimRounds (a.getPageNumber fromAddr) (a.rangePages fromAddr toAddr) rounds).active ∧
    (a.claimRounds (a.getPageNumber fromAddr) (a.rangePages fromAddr toAddr) rounds).entry = entry

/-- Round `k` is at the `k`-th word of the run. -/
theorem claimRounds_entry (hfit : p + count < 2 ^ 32) (k : Nat)
    (hk : p / 64 * 64 + k * 64 < p + count) (hpos : 0 < count) :
    (a.claimRounds p count k).active ∧ (a.claimRounds p count k).entry = p / 64 + k := by
  induction k with
  | zero => exact ⟨(RunCursor.active_iff _).mpr hpos, rfl⟩
  | succ k ih =>
    obtain ⟨hactive, hentry⟩ := ih (by omega)
    obtain ⟨done, hinv⟩ := claimRounds_inv (a := a) (hfit.trans (by decide)) k
    have hround : a.claimRounds p count (k + 1) = (a.claimRounds p count k).claimRound :=
      Loop.loopWhile_succ_last hactive
    have hnext := (hinv.round (hfit.trans (by decide)) hactive).1
    obtain ⟨hcursor, hoffset⟩ := hinv.cursor ((RunCursor.active_iff _).mp hactive)
    have hpages := hinv.pages
    have htotal := hinv.total
    have htotal' := hnext.total
    rw [hround, RunCursor.claimRound_entry (by omega), RunCursor.active_iff]
    omega

/-- A claim writes the words from that of its first page to that of its last. -/
theorem claimWrites_iff {fromAddr toAddr entry : Nat} (hfrom : a.getPageNumber fromAddr = p)
    (hpages : a.rangePages fromAddr toAddr = count) (hpos : 0 < count) (hfit : p + count < 2 ^ 32) :
    a.ClaimWrites fromAddr toAddr entry ↔ p / 64 ≤ entry ∧ entry ≤ (p + count - 1) / 64 := by
  rw [ClaimWrites, hfrom, hpages]
  constructor
  · rintro ⟨rounds, hactive, rfl⟩
    obtain ⟨done, hinv⟩ := claimRounds_inv (a := a) (hfit.trans (by decide)) rounds
    have hleft := (RunCursor.active_iff _).mp hactive
    obtain ⟨hcursor, hoffset⟩ := hinv.cursor hleft
    have htotal := hinv.total
    omega
  · rintro ⟨hlo, hhi⟩
    have hround := claimRounds_entry (a := a) hfit (entry - p / 64) (by omega) hpos
    exact ⟨entry - p / 64, hround.1, by omega⟩

/-- The words of a claim all lie in the bitmap when the page behind it is at most
the number of managed pages. -/
theorem claimWrites_lt_iff {fromAddr toAddr : Nat} (hfrom : a.getPageNumber fromAddr = p)
    (hpages : a.rangePages fromAddr toAddr = count) (hpos : 0 < count) (hfit : p + count < 2 ^ 32) :
    (∀ entry, a.ClaimWrites fromAddr toAddr entry → entry < a.bitmapEntryCount) ↔
      p + count ≤ a.managed := by
  simp only [claimWrites_iff hfrom hpages hpos hfit, managed, pagesPerEntry]
  constructor
  · intro h
    have hlast := h ((p + count - 1) / 64) ⟨by omega, Nat.le_refl _⟩
    omega
  · rintro h entry ⟨-, hhi⟩
    omega

/-- Claiming the range cuts no page number and writes words of the bitmap only. -/
structure ClaimSafe (a : MemoryAllocator) (fromAddr toAddr : Nat) : Prop where
  fromPage : clearKernelSpace fromAddr / a.pageSize < 2 ^ 32
  toPage : clearKernelSpace toAddr / a.pageSize < 2 ^ 32
  words : ∀ entry, a.ClaimWrites fromAddr toAddr entry → entry < a.bitmapEntryCount

def ClaimsSafe : MemoryAllocator → List (Nat × Nat) → Prop
  | _, [] => True
  | a, (fromAddr, toAddr) :: claims =>
    a.ClaimSafe fromAddr toAddr ∧ ClaimsSafe (a.claimRange fromAddr toAddr) claims

/-- The range of the pages from `p` up to `q` is claimed safely just when it ends
within the managed pages. -/
theorem claimSafe_iff {fromAddr toAddr p q pageSize : Nat} (hsize : a.pageSize = pageSize)
    (hfrom : clearKernelSpace fromAddr / pageSize = p) (hto : clearKernelSpace toAddr / pageSize = q)
    (hle : p ≤ q) (hfit : max (p + 1) q < 2 ^ 32) :
    a.ClaimSafe fromAddr toAddr ↔ max (p + 1) q ≤ a.managed := by
  subst hsize
  have hp : a.getPageNumber fromAddr = p := by rw [getPageNumber, hfrom, u32_of_lt (by omega)]
  have hq : a.getPageNumber toAddr = q := by rw [getPageNumber, hto, u32_of_lt (by omega)]
  have hcount : a.rangePages fromAddr toAddr = max 1 (q - p) := by
    simp only [rangePages, hp, hq, sub32_of_le hle]
    split <;> omega
  have hwords := claimWrites_lt_iff hp hcount (by omega) (by omega)
  rw [show max (p + 1) q = p + max 1 (q - p) by omega, ← hwords]
  exact ⟨ClaimSafe.words, fun h => ⟨by omega, by omega, h⟩⟩

end MemoryAllocator

/-! ## The calls of `memory_init` -/

/-- The bitmap before any page is claimed. -/
def MemoryAllocator.cleared (memory : Nat → BitVec 64) (numberOfPages pageSize : Nat) :
    MemoryAllocator where
  bitmap i := if i < numberOfPages / pagesPerEntry then 0#64 else memory i
  bitmapEntryCount := numberOfPages / pagesPerEntry
  pageSize := pageSize

/-- The ranges claimed by `memory_init`: the bitmap, the image and the peripherals. -/
def initClaims (kernelEnd size : Nat) : List (Nat × Nat) :=
  let bitmap := alignUp64 kernelEnd mmuPageSize
  let bitmapEnd := u64 (bitmap + u32 (size / mmuPageSize) / pagesPerEntry * 8)
  [(bitmap, alignUp64 bitmapEnd mmuPageSize),
    (0, alignUp64 (clearKernelSpace kernelEnd) mmuPageSize),
    (alignDown64 peripherialsStart mmuPageSize, alignUp64 peripherialsEnd mmuPageSize)]

/-- The allocator starts with these claims. -/
theorem memoryInitAllocator_eq (memory : Nat → BitVec 64) (kernelEnd size : Nat) :
    memoryInitAllocator memory kernelEnd size = (initClaims kernelEnd size).foldl
      (fun a claim => a.claimRange claim.1 claim.2)
      (.cleared memory (u32 (size / mmuPageSize)) mmuPageSize) :=
  rfl

/-- The subtractions that give the regions their sizes, minuend first. -/
def regionSubtractions (size : Nat) : List (Nat × Nat) :=
  [(peripherialsEnd, peripherialsStart), (size, peripherialsEnd)]

def kernelInsertions (size : Nat) : List (Mmu.Insertion MemoryAllocator) :=
  [normalMemoryRegion1, peripheralsRegion, normalMemoryRegion2 size].map fun region =>
    { address := region.va, size := region.size, memoryType := region.memoryType
      getPhysSpace := getPhysSpace .oneToOne }

def kernelCalls (size : Nat) : List (Mmu.MapCall MemoryAllocator) :=
  (kernelInsertions size).flatMap Mmu.Insertion.calls

/-- After the allocator `memory_init` sets up its regions. -/
theorem memoryInit_eq_insertions (memory : Nat → BitVec 64) (mem : Nat → Nat)
    (mmuSpaceStart kernelEnd size : Nat) :
    memoryInit memory mem mmuSpaceStart kernelEnd size =
      (kernelInsertions size).foldl (Mmu.Insertion.apply allocatorPages mmuSpaceStart)
        (Mmu.blank mem (memoryInitAllocator memory kernelEnd size)) := by
  simp only [memoryInit, kernelInsertions, List.map_cons, List.map_nil, List.foldl_cons,
    List.foldl_nil, Mmu.Insertion.apply, Memory.memoryMapRegion, Mmu.blank]

/-- `memory_init` maps its regions with these calls. -/
theorem memoryInit_eq (memory : Nat → BitVec 64) (mem : Nat → Nat) (mmuSpaceStart kernelEnd size : Nat) :
    memoryInit memory mem mmuSpaceStart kernelEnd size = (kernelCalls size).foldl
      (fun s call => call.run allocatorPages mmuSpaceStart s)
      (Mmu.blank mem (memoryInitAllocator memory kernelEnd size)) := by
  have hcalls : Mmu.Insertion.apply allocatorPages mmuSpaceStart = fun s op =>
      op.calls.foldl (fun s call => call.run allocatorPages mmuSpaceStart s) s := by
    funext s op
    exact Mmu.Insertion.apply_eq_foldl allocatorPages mmuSpaceStart s
  rw [memoryInit_eq_insertions, hcalls, kernelCalls, List.foldl_flatMap]

/-! ## Arithmetic safety -/

/-- The arithmetic of `memory_init(size)` is safe: no count is cut, no size wraps
around, the claims write words of the bitmap and the calls of `mmu_map_units` index
entries of tables. -/
structure InitSafe (memory : Nat → BitVec 64) (mem : Nat → Nat) (mmuSpaceStart kernelEnd size : Nat) :
    Prop where
  numberOfPages : size / mmuPageSize < 2 ^ 32
  claims : MemoryAllocator.ClaimsSafe (.cleared memory (u32 (size / mmuPageSize)) mmuPageSize)
    (initClaims kernelEnd size)
  regions : ∀ minuend subtrahend, (minuend, subtrahend) ∈ regionSubtractions size →
    subtrahend ≤ minuend
  insertions : ∀ op ∈ kernelInsertions size, op.ArithmeticSafe
  indices : Mmu.IndicesSafe allocatorPages mmuSpaceStart
    (Mmu.blank mem (memoryInitAllocator memory kernelEnd size)) (kernelCalls size)

/-- Where the bitmap of a RAM of `size` bytes ends, rounded up to a page. -/
def bitmapEnd (image size : Nat) : Nat :=
  alignUp64 (alignUp64 image mmuPageSize + size / mmuPageSize / pagesPerEntry * 8) mmuPageSize

/-- At least the 4 GB up to the end of the peripherals, fewer than `2 ^ 32` pages, and
the bitmap within the pages it manages, whole words of them. -/
def SizeFits (image size : Nat) : Prop :=
  4 * gbInB ≤ size ∧ size < 2 ^ 44 ∧
    bitmapEnd image size ≤ size / mmuPageSize / pagesPerEntry * pagesPerEntry * mmuPageSize

instance (image size : Nat) : Decidable (SizeFits image size) :=
  inferInstanceAs (Decidable (_ ∧ _ ∧ _))

theorem alignUp64_page {addr : Nat} (h : addr + 4096 ≤ 2 ^ 64) :
    alignUp64 addr mmuPageSize = (addr + 4095) / 4096 * 4096 := by
  have hround : alignUp64 addr (2 ^ 12) = (addr + 2 ^ 12 - 1) / 2 ^ 12 * 2 ^ 12 :=
    alignUp64_two_pow (by decide) h
  rw [mmuPageSize_eq]
  exact hround

/-- Rounding commutes with the kernel's half of the address space. -/
theorem alignUp64_kernelSpace {addr : Nat} (h : addr + 4096 ≤ 2 ^ 48) :
    alignUp64 (addr + kernelSpaceMask) mmuPageSize = (addr + 4095) / 4096 * 4096 + kernelSpaceMask := by
  rw [kernelSpaceMask, alignUp64_page (by omega)]
  omega

theorem clearKernelSpace_add_mask {addr : Nat} (h : addr < 2 ^ 48) :
    clearKernelSpace (addr + kernelSpaceMask) = addr := by
  rw [← setKernelSpace_of_lt h, clearKernelSpace_setKernelSpace h]

section

variable {image size : Nat}

/-- The regions of a RAM of this size start at blocks and lie in the address space. -/
theorem kernelInsertions_space (hlow : 2 ^ 32 ≤ size) (hhigh : size < 2 ^ 44)
    {op : Mmu.Insertion MemoryAllocator} (hop : op ∈ kernelInsertions size) :
    op.address % 2097152 = 0 ∧ op.address + op.size ≤ 2 ^ 48 ∧ op.size < 2 ^ 44 := by
  have hsize : sub64 size peripherialsEnd = size - 2 ^ 32 := sub64_of_le hlow
  simp only [kernelInsertions, List.map_cons, List.map_nil, List.mem_cons, List.not_mem_nil,
    or_false] at hop
  rcases hop with rfl | rfl | rfl
  · decide
  · decide
  · refine ⟨Nat.mod_eq_zero_of_dvd (by decide : 2097152 ∣ peripherialsEnd), ?_, ?_⟩
    · show 2 ^ 32 + sub64 size peripherialsEnd ≤ 2 ^ 48
      omega
    · show sub64 size peripherialsEnd < 2 ^ 44
      omega

/-- The addresses of the ranges, page by page. -/
theorem initClaims_eq (hsize : size < 2 ^ 44)
    (hend : (image + 4095) / 4096 * 4096 + size / 4096 / 64 * 8 + 4096 ≤ 2 ^ 48) :
    initClaims (setKernelSpace image) size =
      [((image + 4095) / 4096 * 4096 + kernelSpaceMask,
          ((image + 4095) / 4096 * 4096 + size / 4096 / 64 * 8 + 4095) / 4096 * 4096 + kernelSpaceMask),
        (0, (image + 4095) / 4096 * 4096), (0xF0000000, 0x100000000)] := by
  have hnumber : u32 (size / mmuPageSize) = size / 4096 := by
    rw [mmuPageSize_eq]
    exact u32_of_lt (by omega)
  have himage : image < 2 ^ 48 ∧ image + 4096 ≤ 2 ^ 48 := by omega
  have hbitmapEnd : u64 ((image + 4095) / 4096 * 4096 + kernelSpaceMask + size / 4096 / 64 * 8) =
      (image + 4095) / 4096 * 4096 + size / 4096 / 64 * 8 + kernelSpaceMask := by
    rw [kernelSpaceMask, u64_of_lt (by omega)]
    omega
  simp only [initClaims]
  rw [hnumber, clearKernelSpace_setKernelSpace himage.1, setKernelSpace_of_lt himage.1,
    alignUp64_kernelSpace himage.2, pagesPerEntry, hbitmapEnd, alignUp64_kernelSpace hend,
    alignUp64_page (Nat.le_trans himage.2 (by decide))]
  rfl

/-- The claims are safe just when the bitmap lies within the pages it manages. -/
theorem claimsSafe_iff (memory : Nat → BitVec 64) (hpages : size % mmuPageSize = 0)
    (hfits : alignUp64 image mmuPageSize + size / mmuPageSize / pagesPerEntry * 8 ≤ size)
    (himage : image < 2 ^ 48) (hlow : 2 ^ 32 ≤ size) (hhigh : size < 2 ^ 44) :
    MemoryAllocator.ClaimsSafe (.cleared memory (u32 (size / mmuPageSize)) mmuPageSize)
        (initClaims (setKernelSpace image) size) ↔
      bitmapEnd image size ≤ size / mmuPageSize / pagesPerEntry * pagesPerEntry * mmuPageSize := by
  rw [mmuPageSize_eq] at hpages
  rw [alignUp64_page (by omega), mmuPageSize_eq, pagesPerEntry] at hfits
  have hnumber : u32 (size / mmuPageSize) = size / 4096 := by
    rw [mmuPageSize_eq]
    exact u32_of_lt (by omega)
  have hsmall : image + 4096 ≤ 2 ^ 48 ∧
      (image + 4095) / 4096 * 4096 + size / 4096 / 64 * 8 + 4096 ≤ 2 ^ 48 := by omega
  have hclaims := initClaims_eq hhigh hsmall.2
  have hbitmapEnd : bitmapEnd image size =
      ((image + 4095) / 4096 * 4096 + size / 4096 / 64 * 8 + 4095) / 4096 * 4096 := by
    have hsum : (image + 4095) / 4096 * 4096 + size / mmuPageSize / pagesPerEntry * 8 + 4096 ≤
        2 ^ 64 := by
      rw [mmuPageSize_eq, pagesPerEntry]
      exact Nat.le_trans hsmall.2 (by decide)
    rw [bitmapEnd, alignUp64_page (Nat.le_trans hsmall.1 (by decide)), alignUp64_page hsum,
      mmuPageSize_eq, pagesPerEntry]
  rw [hclaims, hnumber, hbitmapEnd, mmuPageSize_eq, pagesPerEntry]
  clear hclaims hbitmapEnd hnumber
  generalize hp : (image + 4095) / 4096 = p at *
  generalize hn : size / 4096 / 64 = n at *
  generalize hq : (p * 4096 + n * 8 + 4095) / 4096 = q at *
  obtain ⟨hle, hp48, hq48, hfit, hfit'⟩ : p ≤ q ∧ p * 4096 < 2 ^ 48 ∧ q * 4096 < 2 ^ 48 ∧
      max (p + 1) q < 2 ^ 32 ∧ max (0 + 1) p < 2 ^ 32 := by omega
  have hpage : ∀ m, m * 4096 / 4096 = m := fun m => Nat.mul_div_cancel m (by decide)
  have hclear : ∀ m, m * 4096 < 2 ^ 48 →
      clearKernelSpace (m * 4096 + kernelSpaceMask) / 4096 = m := fun m hm => by
    rw [clearKernelSpace_add_mask hm, hpage]
  simp only [MemoryAllocator.ClaimsSafe, and_true]
  have hsize : ∀ (a : MemoryAllocator) fromAddr toAddr, a.pageSize = 4096 →
      (a.claimRange fromAddr toAddr).pageSize = 4096 := fun a fromAddr toAddr h => by
    rw [MemoryAllocator.claimRange_pageSize, h]
  rw [MemoryAllocator.claimSafe_iff (p := p) (q := q) rfl (hclear p hp48) (hclear q hq48) hle hfit,
    MemoryAllocator.claimSafe_iff (p := 0) (q := p) (hsize _ _ _ rfl) (by decide)
      (by rw [clearKernelSpace_of_lt hp48, hpage]) (Nat.zero_le p) hfit',
    MemoryAllocator.claimSafe_iff (p := 0xF0000) (q := 0x100000) (hsize _ _ _ (hsize _ _ _ rfl))
      (by decide) (by decide) (by decide) (by decide)]
  simp only [MemoryAllocator.managed, MemoryAllocator.claimRange_bitmapEntryCount,
    MemoryAllocator.cleared, pagesPerEntry, hn]
  clear hclear hsize hpage
  omega

/-- The arithmetic of `memory_init` is safe just for the sizes that fit. -/
theorem initSafe_iff (memory : Nat → BitVec 64) (mem : Nat → Nat) (mmuSpaceStart : Nat)
    (hpages : size % mmuPageSize = 0) (himage : image < 2 ^ 48)
    (hfits : alignUp64 image mmuPageSize + size / mmuPageSize / pagesPerEntry * 8 ≤ size) :
    InitSafe memory mem mmuSpaceStart (setKernelSpace image) size ↔ SizeFits image size := by
  have hclaims := claimsSafe_iff memory hpages hfits himage
  constructor
  · intro h
    have hlow : 2 ^ 32 ≤ size := h.regions size peripherialsEnd (.tail _ (.head _))
    have hhigh := h.numberOfPages
    rw [mmuPageSize_eq] at hhigh
    have hhigh : size < 2 ^ 44 := by omega
    exact ⟨hlow, hhigh, (hclaims hlow hhigh).mp h.claims⟩
  · rintro ⟨hlow, hhigh, hend⟩
    have hspace := fun op hop => @kernelInsertions_space size hlow hhigh op hop
    refine ⟨?_, (hclaims hlow hhigh).mpr hend, fun minuend subtrahend hmem => ?_, fun op hop => ?_,
      Mmu.indicesSafe_of_space fun call hcall => ?_⟩
    · rw [mmuPageSize_eq]
      exact Nat.div_lt_of_lt_mul hhigh
    · simp only [regionSubtractions, List.mem_cons, List.not_mem_nil, or_false, Prod.mk.injEq] at hmem
      rcases hmem with ⟨rfl, rfl⟩ | ⟨rfl, rfl⟩
      · decide
      · exact hlow
    · obtain ⟨haligned, hroom, hsize⟩ := hspace op hop
      exact Mmu.Insertion.arithmeticSafe_of_aligned haligned hroom hsize
    · obtain ⟨op, hop, hcall⟩ := List.mem_flatMap.mp hcall
      obtain ⟨haligned, hroom, -⟩ := hspace op hop
      exact Mmu.Insertion.calls_space haligned hroom hcall

/-- The size the kernel is built with, and an image that ends at 1 MB. -/
theorem initSafe_fourGb :
    InitSafe (fun _ => 0#64) (fun _ => 0) (setKernelSpace 0x80000) (setKernelSpace 0x100000)
      (4 * gbInB) :=
  (initSafe_iff _ _ _ (by decide) (by decide) (by decide)).mpr (by decide)

/-- With 1 GB the size of the region behind the peripherals wraps around. -/
theorem not_initSafe_oneGb :
    gbInB % mmuPageSize = 0 ∧
      alignUp64 0x100000 mmuPageSize + gbInB / mmuPageSize / pagesPerEntry * 8 ≤ gbInB ∧
      ¬InitSafe (fun _ => 0#64) (fun _ => 0) (setKernelSpace 0x80000) (setKernelSpace 0x100000)
        gbInB := by
  refine ⟨by decide, by decide, fun h => ?_⟩
  have hregion := h.regions gbInB peripherialsEnd (.tail _ (.head _))
  exact absurd hregion (by decide)

end

end PiVOS
