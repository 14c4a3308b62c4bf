-- SUMMARY: The kernel's address space after `memory_init`: the identity map, on pages of its own.
import PiVOS.Boot.Mmu
import PiVOS.Memory.InitHeap

/-!
# The kernel's address space

`memory_init` extends the tables of the boot code by four stretches of units, each
mapped to itself. Blocks that the boot code has mapped already are kept.
-/

namespace PiVOS
namespace Mmu

variable {A : Type} {pages : PageHeap A} {kind : UnitKind A}

/-! ## The number of tables -/

/-- The rounds that map `count` units from unit `m` on: one for each table of units. -/
def batches (m count : Nat) : Nat := if count = 0 then 0 else (m % 512 + count + 511) / 512

theorem descent_address (n : Nat) (d : Descent A) (hn : n ≤ 3) :
    (forRange (descend pages) (n + 1) 0 d).address = d.address % regionSize n := by
  induction n with
  | zero => exact (descend_address 0 d).trans (by rw [regionSize_eq (Nat.zero_le 3)])
  | succ n ih =>
    have hregion := regionSize_succ (by omega : n < 3)
    rw [Loop.forRange_succ_last, descend_address, Nat.zero_add, ih (by omega), regionSize_eq hn,
      Nat.mod_mod_of_dvd _ ⟨512, by rw [hregion, Nat.mul_comm]⟩]

theorem traverse_idx (hkind : kind.Regular) (s : Mmu A) (table m : Nat) :
    (s.mmuTraverseAndAllocTables pages table 0 (m * kind.unitSize) kind.destinationLevel).1.idx =
      m % 512 := by
  have hsize := hkind.unitSize
  obtain ⟨l, hl⟩ : ∃ l, kind.destinationLevel = l + 1 := by
    rcases hkind.level with h | h
    · exact ⟨1, h⟩
    · exact ⟨2, h⟩
  have hle := hkind.le
  have hregion := regionSize_succ (by omega : l < 3)
  have hpos := regionSize_pos (l + 1)
  simp only [mmuTraverseAndAllocTables, hl, Nat.sub_zero, Nat.zero_max] at hsize hle ⊢
  rw [descent_address l _ (by omega), regionSize_eq hle, hsize, hregion, Nat.mul_mod_mul_right,
    Nat.mul_div_cancel _ hpos, u32_of_lt]
  exact Nat.lt_trans (Nat.mod_lt m (by decide)) (by decide)

/-- A round leaves over what lies in later tables. -/
theorem mapRound_count (hkind : kind.Regular) {table address m : Nat} {c : MapCursor A}
    (hcount : c.count < 2 ^ 32) (hpos : 0 < c.count) (hoffset : address + c.offset = m * kind.unitSize)
    (hspace : (m + c.count) * kind.unitSize ≤ 2 ^ 48) :
    ∃ k, k = min (512 - m % 512) c.count ∧
      (mapRound pages kind table 0 address c).count = c.count - k ∧
      address + (mapRound pages kind table 0 address c).offset = (m + k) * kind.unitSize := by
  refine ⟨_, rfl, ?_⟩
  generalize hk : min (512 - m % 512) c.count = k
  have hsize : 0 < kind.unitSize := hkind.unitSize ▸ regionSize_pos _
  have hend : (m + k) * kind.unitSize ≤ 2 ^ 48 :=
    Nat.le_trans (Nat.mul_le_mul_right _ (by omega)) hspace
  have hsum : (m + k) * kind.unitSize = m * kind.unitSize + k * kind.unitSize := Nat.add_mul ..
  have hva : u64 (address + c.offset) = m * kind.unitSize := by
    rw [u64_of_lt (by omega), hoffset]
  have hunits : u32 (min (sub64 (mmuNumberOfLevelEntries kind.destinationLevel) (m % 512)) c.count) =
      k := by
    rw [mmuNumberOfLevelEntries, sub64_of_le (by omega), u32_of_lt (by omega), hk]
  simp only [mapRound, hva, traverse_idx hkind, hunits]
  rw [sub32_of_le (by omega), u64_of_lt (by omega)]
  omega

theorem mapLoop_tables_length (hkind : kind.Regular) {table address m n : Nat} {c : MapCursor A}
    (hcount : c.count < 2 ^ 32) (hoffset : address + c.offset = m * kind.unitSize)
    (hspace : (m + c.count) * kind.unitSize ≤ 2 ^ 48) :
    (loopWhile MapCursor.active (mapRound pages kind table 0 address) n c).mmu.tables.length ≤
      c.mmu.tables.length + 3 * batches m c.count := by
  induction n generalizing c m with
  | zero => exact Nat.le_add_right _ _
  | succ n ih =>
    by_cases hpos : 0 < c.count
    · have htrue : c.active = true := decide_eq_true hpos
      rw [Loop.loopWhile_succ_of_true _ htrue]
      have hround := mapRound_tables_length hkind pages table address c
      obtain ⟨k, hk, hcount', hoffset'⟩ := mapRound_count hkind hcount hpos hoffset hspace
      have hrest := ih (c := mapRound pages kind table 0 address c) (m := m + k) (by omega) hoffset'
        (by rwa [hcount', show m + k + (c.count - k) = m + c.count by omega])
      rw [hcount'] at hrest
      -- the later tables are filled from their first slot on
      have hbatches : batches (m + k) (c.count - k) + 1 ≤ batches m c.count := by
        simp only [batches, if_neg (Nat.ne_of_gt hpos)]
        split <;> omega
      omega
    · have hfalse : c.active = false := decide_eq_false hpos
      rw [Loop.loopWhile_of_false _ hfalse]
      exact Nat.le_add_right _ _

/-- Not more than three tables for each table of units. -/
theorem Stretch.map_tables_length {p : Stretch A} (hp : p.Valid) (pages : PageHeap A) (root : Nat)
    (s : Mmu A) :
    (p.map pages root s).tables.length ≤ s.tables.length + 3 * batches p.first p.count :=
  mapLoop_tables_length (c := ⟨p.count, 0, s⟩) hp.regular hp.count rfl hp.space

theorem Stretch.foldl_tables_length {ps : List (Stretch A)} (hps : ∀ p ∈ ps, p.Valid)
    (pages : PageHeap A) (root : Nat) (s : Mmu A) : (ps.foldl (Stretch.map pages root) s).tables.length ≤
      s.tables.length + 3 * (ps.map fun p => batches p.first p.count).sum := by
  induction ps generalizing s with
  | nil => exact Nat.le_add_right _ _
  | cons p ps ih =>
    rw [List.forall_mem_cons] at hps
    have hfirst := Stretch.map_tables_length hps.1 pages root s
    have hrest := ih hps.2 (p.map pages root s)
    rw [List.foldl_cons, List.map_cons, List.sum_cons]
    omega

theorem Stretch.foldl_steps {callback : GetPhysSpace A} {ps : List (Stretch A)}
    (hps : ∀ p ∈ ps, p.Valid ∧ p.kind.getPhysSpace = callback) (root : Nat) (s : Mmu A) :
    Steps pages callback s (ps.foldl (Stretch.map pages root) s) := by
  induction ps generalizing s with
  | nil => exact .refl
  | cons p ps ih =>
    rw [List.forall_mem_cons] at hps
    obtain ⟨⟨hvalid, hcallback⟩, hrest⟩ := hps
    have hfirst : Steps pages p.kind.getPhysSpace s (p.map pages root s) :=
      mapUnits_steps hvalid.regular _ _ _ _ _
    rw [List.foldl_cons]
    exact (hcallback ▸ hfirst).trans (ih hrest _)

/-! ## The stretches of `memory_init` -/

/-- A region that starts at a block is mapped in blocks, and in pages behind them. -/
theorem Insertion.apply_of_aligned {op : Insertion A} (haligned : op.address % 2097152 = 0)
    (hspace : op.address + op.size ≤ 2 ^ 48) (hsize : op.size < 2 ^ 44) (table : Nat) (s : Mmu A) :
    op.apply pages table s =
      (s.mmuMapUnits pages (blockUnits op.memoryType op.getPhysSpace) table 0 op.address
        (op.size / 2097152)).mmuMapUnits pages (pageUnits op.memoryType op.getPhysSpace) table 0
        (op.address + op.size / 2097152 * 2097152) (op.size % 2097152 / 4096) := by
  have hblockAddress := Insertion.blockAddress_of_aligned haligned hspace
  rw [Insertion.apply_eq_foldl, Insertion.calls]
  split
  · rw [Insertion.leading_of_aligned haligned hspace, Insertion.blocks_of_aligned haligned hspace,
      Insertion.trailing_of_aligned haligned hspace, Insertion.blockOffset_of_aligned haligned hspace,
      Insertion.trailingOffset_of_aligned haligned hspace]
    simp only [List.foldl_cons, List.foldl_nil, MapCall.run]
    rw [u32_of_lt (by omega : op.size / 2097152 < 2 ^ 32),
      u32_of_lt (by omega : op.size % 2097152 / 4096 < 2 ^ 32), Nat.add_zero, u64_of_lt (by omega),
      u64_of_lt (by omega)]
    rfl
  · rename_i hshort
    have hlt : op.size < 2097152 := by
      rw [Insertion.HasBlock, hblockAddress, sub64_of_le (Nat.le_refl _), mmuSizeOfLevelRegion_two,
        u64_of_lt (by omega)] at hshort
      omega
    simp only [List.foldl_cons, List.foldl_nil, MapCall.run, mmuPageSize_eq]
    rw [Nat.div_eq_of_lt hlt, Nat.mod_eq_of_lt hlt, u32_of_lt (by omega : op.size / 4096 < 2 ^ 32),
      Nat.zero_mul, Nat.add_zero]
    rfl

namespace Insertion

variable {op : Insertion A}

/-- The units of a region that starts at a block: blocks, and pages behind them. -/
def blockStretches (op : Insertion A) : List (Stretch A) :=
  [⟨blockUnits op.memoryType op.getPhysSpace, op.address / 2097152, op.size / 2097152⟩,
    ⟨pageUnits op.memoryType op.getPhysSpace, (op.address / 2097152 + op.size / 2097152) * 512,
      op.size % 2097152 / 4096⟩]

variable (haligned : op.address % 2097152 = 0) (hspace : op.address + op.size ≤ 2 ^ 48)
  (hsize : op.size < 2 ^ 44)

include haligned hspace hsize

theorem apply_eq_blockStretches (root : Nat) (s : Mmu A) :
    op.apply pages (setKernelSpace root) s = op.blockStretches.foldl (Stretch.map pages root) s := by
  have hblock : op.address / 2097152 * mmuSizeOfLevelRegion 2 = op.address := by
    rw [mmuSizeOfLevelRegion_two]
    omega
  have hpage : (op.address / 2097152 + op.size / 2097152) * 512 * mmuSizeOfLevelRegion 3 =
      op.address + op.size / 2097152 * 2097152 := by
    rw [mmuSizeOfLevelRegion_three]
    omega
  rw [apply_of_aligned haligned hspace hsize, blockStretches, List.foldl_cons, List.foldl_cons,
    List.foldl_nil, Stretch.map, Stretch.map]
  simp only [UnitKind.unitSize, blockUnits, pageUnits]
  rw [hblock, hpage]

theorem blockStretches_valid : ∀ p ∈ op.blockStretches, p.Valid := by
  simp only [blockStretches, List.forall_mem_cons, List.not_mem_nil, false_imp_iff, implies_true,
    and_true]
  refine ⟨⟨UnitKind.blockUnits_regular .., ?_, ?_⟩, ⟨UnitKind.pageUnits_regular .., ?_, ?_⟩⟩
  all_goals simp only [UnitKind.unitSize, blockUnits, pageUnits, mmuSizeOfLevelRegion_two,
    mmuSizeOfLevelRegion_three]
  all_goals omega

end Insertion

end Mmu

open Mmu

variable {image size : Nat}

def kernelStretches (size : Nat) : List (Stretch MemoryAllocator) :=
  (kernelInsertions size).flatMap Insertion.blockStretches

theorem kernelStretches_valid (hlow : 2 ^ 32 ≤ size) (hhigh : size ≤ 2 ^ 39) :
    ∀ p ∈ kernelStretches size, p.Valid := by
  intro p hp
  obtain ⟨op, hop, hp⟩ := List.mem_flatMap.mp hp
  obtain ⟨haligned, hspace, hsize⟩ := kernelInsertions_space hlow (by omega) hop
  exact Insertion.blockStretches_valid haligned hspace hsize p hp

theorem kernelStretches_oneToOne :
    ∀ p ∈ kernelStretches size, p.kind.getPhysSpace = getPhysSpaceOneToOne := by
  intro p hp
  obtain ⟨op, hop, hp⟩ := List.mem_flatMap.mp hp
  have hcallback : op.getPhysSpace = getPhysSpaceOneToOne := by
    simp only [kernelInsertions, List.mem_map] at hop
    obtain ⟨region, -, rfl⟩ := hop
    rfl
  simp only [Insertion.blockStretches, List.mem_cons, List.not_mem_nil, or_false] at hp
  rcases hp with rfl | rfl
  · exact hcallback
  · exact hcallback

/-- About one table of units for each gigabyte. -/
theorem kernelStretches_batches (hlow : 2 ^ 32 ≤ size) :
    ((kernelStretches size).map fun p => batches p.first p.count).sum ≤ size / 2 ^ 30 + 3 := by
  obtain ⟨rest, hrest⟩ : ∃ rest, rest = size - 2 ^ 32 := ⟨_, rfl⟩
  have hsize : (normalMemoryRegion2 size).size = rest := hrest ▸ sub64_of_le hlow
  have hregion₁ : normalMemoryRegion1.va / 2097152 = 0 ∧ normalMemoryRegion1.size / 2097152 = 1920 ∧
      normalMemoryRegion1.size % 2097152 / 4096 = 0 := by decide
  have hregion₂ : peripheralsRegion.va / 2097152 = 1920 ∧ peripheralsRegion.size / 2097152 = 128 ∧
      peripheralsRegion.size % 2097152 / 4096 = 0 := by decide
  have hend : peripherialsEnd / 2097152 = 2048 := by decide
  have hregion₃ : (normalMemoryRegion2 size).va / 2097152 = 2048 := hend
  have hlist : ((kernelStretches size).map fun p => batches p.first p.count).sum =
      batches 0 1920 + batches (1920 * 512) 0 + batches 1920 128 + batches (2048 * 512) 0 +
        batches 2048 (rest / 2097152) +
        batches ((2048 + rest / 2097152) * 512) (rest % 2097152 / 4096) := by
    simp only [kernelStretches, kernelInsertions, Insertion.blockStretches, List.map_cons,
      List.map_nil, List.flatMap_cons, List.flatMap_nil, List.append_nil, List.cons_append,
      List.nil_append, List.sum_cons, List.sum_nil, ← Nat.add_assoc, Nat.add_zero, hregion₁, hregion₂,
      hregion₃, hsize]
  have hbatches : ∀ m count, batches m count ≤ (m % 512 + count + 511) / 512 := fun m count => by
    rw [batches]
    split <;> omega
  have h₁ : batches 0 1920 + batches (1920 * 512) 0 + batches 1920 128 + batches (2048 * 512) 0 = 5 := by
    simp [batches]
  have h₂ := hbatches 2048 (rest / 2097152)
  have h₃ := hbatches ((2048 + rest / 2097152) * 512) (rest % 2097152 / 4096)
  rw [Nat.mul_mod_left] at h₃
  omega

/-- `memory_init` maps the stretches of its regions one after the other. -/
theorem memoryInit_eq_stretches (memory : Nat → BitVec 64) (mem : Nat → Nat) (root kernelEnd : Nat)
    (hlow : 2 ^ 32 ≤ size) (hhigh : size ≤ 2 ^ 39) :
    memoryInit memory mem (setKernelSpace root) kernelEnd size =
      (kernelStretches size).foldl (Stretch.map allocatorPages root)
        (blank mem (memoryInitAllocator memory kernelEnd size)) := by
  rw [memoryInit_eq_insertions, kernelStretches, List.foldl_flatMap]
  refine List.foldl_ext _ _ _ fun s op hop => ?_
  obtain ⟨haligned, hspace, hsize⟩ := kernelInsertions_space hlow (by omega) hop
  exact Insertion.apply_eq_blockStretches haligned hspace hsize root s

theorem bitmapEnd_eq (hpage : image % 4096 = 0) (himage : image < 2 ^ 29) (hhigh : size ≤ 2 ^ 39) :
    bitmapEnd image size = firstFree image size * 4096 := by
  obtain ⟨p, hp⟩ : ∃ p, image = p * 4096 := ⟨image / 4096, by omega⟩
  have hbitmap : size / 4096 / 64 * 8 ≤ 2 ^ 24 := by omega
  have hstart : alignUp64 image mmuPageSize = image := by
    rw [alignUp64_page (by omega)]
    omega
  rw [bitmapEnd, hstart, mmuPageSize_eq, pagesPerEntry, ← mmuPageSize_eq, alignUp64_page,
    mmuPageSize_eq, hp, pageEnd_eq, firstFree, Nat.mul_div_cancel _ (by decide)]
  rw [mmuPageSize_eq]
  omega

/-- The pages for the kernel's tables are there. -/
theorem firstFree_add_le {n : Nat} (himage : image < 2 ^ 29) (hhigh : size ≤ 2 ^ 39)
    (hn : n ≤ 3 * (size / 2 ^ 30 + 3)) : firstFree image size + n ≤ 0xF0000 := by
  have hgb : size / 2 ^ 30 ≤ 512 := by omega
  rw [firstFree]
  omega

/-- The boot's tables apart, the kernel's tables are on the first free pages. -/
theorem memoryInit_heap (memory : Nat → BitVec 64) (mem : Nat → Nat) (root : Nat)
    (hpage : image % 4096 = 0) (himage : image ≠ 0 ∧ image < 2 ^ 29) (hlow : 2 ^ 32 ≤ size)
    (hhigh : size ≤ 2 ^ 39) :
    ∃ n ≤ 3 * (size / 2 ^ 30 + 3),
      (memoryInit memory mem (setKernelSpace root) (setKernelSpace image) size).heap =
        ((memoryInitAllocator memory (setKernelSpace image) size).claimPageTimes n).2 ∧
      (memoryInit memory mem (setKernelSpace root) (setKernelSpace image) size).tables =
        ((List.range' (firstFree image size) n).map (· * 4096)).reverse := by
  obtain ⟨s, hs⟩ : ∃ s, s = blank mem (memoryInitAllocator memory (setKernelSpace image) size) :=
    ⟨_, rfl⟩
  have hvalid := kernelStretches_valid hlow hhigh
  have hrun := memoryInit_eq_stretches memory mem root (setKernelSpace image) hlow hhigh
  rw [← hs] at hrun
  have hsteps : Steps allocatorPages getPhysSpaceOneToOne s _ :=
    Stretch.foldl_steps (fun p hp => ⟨hvalid p hp, kernelStretches_oneToOne p hp⟩) root s
  have hlength := Stretch.foldl_tables_length hvalid allocatorPages root s
  have hbatches := kernelStretches_batches hlow
  rw [← hrun] at hsteps hlength
  obtain ⟨n, hheap, htables⟩ := hsteps.tablesTaken
  have hheap₀ : s.heap = memoryInitAllocator memory (setKernelSpace image) size := by rw [hs, blank_heap]
  have htables₀ : s.tables = [] := by rw [hs, blank_tables]
  rw [htables₀, List.append_nil] at htables
  rw [htables, htables₀, List.length_reverse,
    MemoryAllocator.claimPageTimes_length, List.length_nil, Nat.zero_add] at hlength
  have hn : n ≤ 3 * (size / 2 ^ 30 + 3) := by omega
  have hfirst := firstFree_add_le himage.2 hhigh hn
  have hhole := memoryInitAllocator_hole memory hpage himage hlow hhigh
  rw [hheap₀] at hheap htables
  rw [(hhole.claimPageTimes hfirst).1] at htables
  exact ⟨n, hn, hheap, htables⟩

/-! ## The identity map -/

/-- The memory type of `va`: that of a device in the window of the peripherals. -/
def kernelMemoryType (va : Nat) : Nat :=
  if peripherialsStart ≤ va ∧ va < peripherialsEnd then memoryTypeDevice else memoryTypeNormalNoCache

/-- The tree maps what is below `lo` to itself, and nothing from `hi` on. -/
structure IdentityTree (t : MmuTree) (lo hi : Nat) : Prop where
  leaf : ∀ {level m e}, t.leaf level m = some e →
    (level = 2 ∨ level = 3) ∧ (m + 1) * regionSize level ≤ hi ∧
      ∀ va, slotNumber level va = m → translate level e va = ⟨va, kernelMemoryType va⟩
  mapped : ∀ va < lo, ∃ level, (t.leaf level (slotNumber level va)).isSome

/-- From `t` to `t'` leaves were added for mapped units, and those of `t` kept. -/
structure UnitsAdded (t t' : MmuTree) : Prop where
  kept : ∀ {level m e}, t.leaf level m = some e → t'.leaf level m = some e
  added : ∀ {level m e}, t'.leaf level m = some e → t.leaf level m = some e ∨
    ∃ (kind : UnitKind MemoryAllocator) (addr : Nat), kind.Regular ∧ e = kind.entry addr

theorem UnitsAdded.trans {t t₁ t₂ : MmuTree} (h₁ : UnitsAdded t t₁) (h₂ : UnitsAdded t₁ t₂) :
    UnitsAdded t t₂ where
  kept hleaf := h₂.kept (h₁.kept hleaf)
  added hleaf := by
    rcases h₂.added hleaf with hold | hnew
    · exact h₁.added hold
    · exact .inr hnew

theorem UnitsAdded.of_maps {kind : UnitKind MemoryAllocator} (hkind : kind.Regular)
    {fin s s' : Memory} {root lo hi : Nat} {t t' : MmuTree} (h : Maps kind fin root s t s' t' lo hi) :
    UnitsAdded t t' where
  kept := h.grown.leaf_old
  added hleaf := by
    rcases h.grown.leaf_new hleaf with hold | ⟨-, -, -, addr, rfl, -⟩
    · exact .inl hold
    · exact .inr ⟨kind, addr, hkind, rfl⟩

namespace IdentityTree

theorem boot (root : Nat) : IdentityTree (bootTree root) (2 ^ 30) (2 ^ 30) := by
  constructor
  · rintro level m e hleaf
    obtain ⟨⟨rfl, hm⟩, rfl⟩ := bootTree_leaf_eq_some.mp hleaf
    refine ⟨.inl rfl, ?_, fun va hva => ?_⟩
    · rw [regionSize]
      omega
    · have hlow : ¬(peripherialsStart ≤ va ∧ va < peripherialsEnd) := by
        simp only [slotNumber, regionSize, peripherialsStart] at hva ⊢
        omega
      rw [kernelMemoryType, if_neg hlow, bootBlock_eq]
      simp only [slotNumber, translate, outputAddress, regionSize, memoryTypeNormalNoCache,
        Translation.mk.injEq] at hva ⊢
      omega
  · intro va hva
    have hslot : slotNumber 2 va < 512 := by
      rw [slotNumber, regionSize]
      omega
    exact ⟨2, by rw [bootTree_leaf_eq_some.mpr ⟨⟨rfl, hslot⟩, rfl⟩]; rfl⟩

variable {kind : UnitKind MemoryAllocator} {fin s s' : Memory} {root first count lo hi : Nat}
  {t t' : MmuTree}

/-- Blocks can be laid over blocks of the same type, pages behind everything that is mapped. -/
theorem isOpen (h : IdentityTree t lo hi) (htree : HoldsTree s.mem root t) (hkind : kind.Regular)
    (htype : ∀ va, first * kind.unitSize ≤ va → va < (first + count) * kind.unitSize →
      kernelMemoryType va = kind.memoryType)
    (hroom : (kind.destinationLevel = 2 ∧ ∀ n, t.node 3 n = none) ∨
      (kind.destinationLevel = 3 ∧ hi ≤ first * kind.unitSize))
    {m : Nat} (hlo : first ≤ m) (hhi : m < first + count) : kind.Open t m := by
  have hsize := hkind.unitSize
  have hstart : first * kind.unitSize ≤ m * kind.unitSize := Nat.mul_le_mul_right _ hlo
  rcases hroom with ⟨hlevel, hnode⟩ | ⟨hlevel, hbehind⟩
  · refine ⟨fun l hl => ?_, by rw [hlevel, hnode], fun e he => ?_⟩
    · cases hleaf : t.leaf l (slotNumber l (m * kind.unitSize)) with
      | none => rfl
      | some e =>
        have := (h.leaf hleaf).1
        omega
    · have hva : m * kind.unitSize < (first + count) * kind.unitSize :=
        Nat.mul_lt_mul_of_pos_right hhi (hsize ▸ regionSize_pos _)
      have htranslate := (h.leaf he).2.2 _ (hkind.slotNumber_unit m)
      exact (congrArg Translation.attrIndx htranslate).trans (htype _ hstart hva)
  · have hfree : ∀ l va e, t.leaf l (slotNumber l va) = some e → va < hi := fun l va e hleaf => by
      have hend := (h.leaf hleaf).2.1
      have := Nat.lt_mul_div_succ va (regionSize_pos l)
      rw [slotNumber, Nat.mul_comm] at hend
      exact Nat.lt_of_lt_of_le this hend
    refine ⟨fun l hl => ?_, ?_, fun e he => ?_⟩
    · cases hleaf : t.leaf l (slotNumber l (m * kind.unitSize)) with
      | none => rfl
      | some e =>
        have := hfree _ _ _ hleaf
        omega
    · cases hnode : t.node (kind.destinationLevel + 1) m with
      | none => rfl
      | some a =>
        have := htree.depth hnode
        omega
    · rw [← hkind.slotNumber_unit m] at he
      have := hfree _ _ _ he
      omega

/-- Units mapped to themselves extend the identity map. -/
theorem maps (h : IdentityTree t lo hi) (hkind : kind.Regular)
    (hmaps : Maps kind fin root s t s' t' first (first + count))
    (hcallback : kind.getPhysSpace = getPhysSpaceOneToOne)
    (hspace : (first + count) * kind.unitSize ≤ 2 ^ 48) (hmemoryType : kind.memoryType < 8)
    (htype : ∀ va, first * kind.unitSize ≤ va → va < (first + count) * kind.unitSize →
      kernelMemoryType va = kind.memoryType)
    (hlo : first * kind.unitSize ≤ lo) (hhi : hi ≤ (first + count) * kind.unitSize) :
    IdentityTree t' ((first + count) * kind.unitSize) ((first + count) * kind.unitSize) := by
  have hsize := hkind.unitSize
  have hpos := regionSize_pos kind.destinationLevel
  rw [← hsize] at hpos
  constructor
  · intro level m e hleaf
    rcases hmaps.grown.leaf_new hleaf with hold | ⟨rfl, hmlo, hmhi, addr, rfl, -, heap, hgrant⟩
    · obtain ⟨hlevel, hend, htranslate⟩ := h.leaf hold
      exact ⟨hlevel, Nat.le_trans hend hhi, htranslate⟩
    · rw [hcallback] at hgrant
      obtain rfl : m * kind.unitSize = addr := hgrant
      have hend : (m + 1) * kind.unitSize ≤ (first + count) * kind.unitSize :=
        Nat.mul_le_mul_right _ hmhi
      have hstart : first * kind.unitSize ≤ m * kind.unitSize := Nat.mul_le_mul_right _ hmlo
      refine ⟨hkind.level, hsize ▸ hend, fun va hva => ?_⟩
      have hdiv : va / kind.unitSize = m := by rwa [slotNumber, ← hsize] at hva
      have hmod := Nat.div_add_mod' va kind.unitSize
      have hlt := Nat.mod_lt va hpos
      rw [hdiv] at hmod
      rw [Nat.succ_mul] at hend
      rw [hkind.translate_entry (Nat.mul_mod_left ..) (by omega) hmemoryType, hmod,
        htype va (by omega) (by omega)]
  · intro va hva
    rcases Nat.lt_or_ge va (first * kind.unitSize) with hbefore | hbehind
    · obtain ⟨level, hsome⟩ := h.mapped va (Nat.lt_of_lt_of_le hbefore hlo)
      obtain ⟨e, he⟩ := Option.isSome_iff_exists.mp hsome
      exact ⟨level, by rw [hmaps.grown.leaf_old he]; rfl⟩
    · refine ⟨kind.destinationLevel, hmaps.mapped _ ?_ ?_⟩
      · rw [slotNumber, ← hsize]
        exact (Nat.le_div_iff_mul_le hpos).mpr hbehind
      · rw [slotNumber, ← hsize]
        exact (Nat.div_lt_iff_lt_mul hpos).mpr hva

/-- A stretch of units extends the identity map to its end: blocks where there are no tables
of pages, or pages behind everything mapped. -/
theorem stretch {p : Stretch MemoryAllocator} (h : IdentityTree t lo hi) (hholds : Holds fin root s t)
    (hvalid : p.Valid) (hcallback : p.kind.getPhysSpace = getPhysSpaceOneToOne)
    (hmemoryType : p.kind.memoryType < 8)
    (htype : ∀ va, p.first * p.kind.unitSize ≤ va → va < (p.first + p.count) * p.kind.unitSize →
      kernelMemoryType va = p.kind.memoryType)
    (hvacant : p.kind.destinationLevel = 2 ∧ (∀ n, t.node 3 n = none) ∨
      p.kind.destinationLevel = 3 ∧ hi ≤ p.first * p.kind.unitSize)
    (hlo : p.first * p.kind.unitSize ≤ lo) (hhi : hi ≤ (p.first + p.count) * p.kind.unitSize)
    (hfin : RecordedIn (p.map allocatorPages root s) fin) :
    ∃ t', Maps p.kind fin root s t (p.map allocatorPages root s) t' p.first (p.first + p.count) ∧
      IdentityTree t' ((p.first + p.count) * p.kind.unitSize)
        ((p.first + p.count) * p.kind.unitSize) := by
  obtain ⟨t', hmaps⟩ := mapUnits_spec hvalid.regular hholds hvalid.count hvalid.space
    (fun m => h.isOpen hholds.tree hvalid.regular htype hvacant) hfin
  exact ⟨t', hmaps, h.maps hvalid.regular hmaps hcallback hvalid.space hmemoryType htype hlo hhi⟩

/-- A region that starts at a block extends the identity map to its end. -/
theorem insertion {op : Insertion MemoryAllocator} (h : IdentityTree t lo hi)
    (hholds : Holds fin root s t) (hnode : ∀ n, t.node 3 n = none)
    (haligned : op.address % 2097152 = 0) (hspace : op.address + op.size ≤ 2 ^ 48)
    (hsize : op.size < 2 ^ 44) (hpages : op.size % 4096 = 0)
    (hcallback : op.getPhysSpace = getPhysSpaceOneToOne) (hmemoryType : op.memoryType < 8)
    (htype : ∀ va, op.Covers va → kernelMemoryType va = op.memoryType) (hlo : op.address ≤ lo)
    (hhi : hi ≤ op.address + op.size / 2097152 * 2097152)
    (hfin : RecordedIn (op.apply allocatorPages (setKernelSpace root) s) fin) :
    ∃ t', Holds fin root (op.apply allocatorPages (setKernelSpace root) s) t' ∧
      IdentityTree t' (op.address + op.size) (op.address + op.size) ∧ UnitsAdded t t' ∧
      (op.size % 2097152 = 0 → ∀ n, t'.node 3 n = none) := by
  obtain ⟨mid, hmid⟩ : ∃ mid, mid = op.address + op.size / 2097152 * 2097152 := ⟨_, rfl⟩
  have hvalid := Insertion.blockStretches_valid haligned hspace hsize
  rw [Insertion.apply_eq_blockStretches haligned hspace hsize] at hfin ⊢
  rw [Insertion.blockStretches] at hvalid hfin ⊢
  generalize hblocks : (⟨blockUnits op.memoryType op.getPhysSpace, op.address / 2097152,
    op.size / 2097152⟩ : Stretch MemoryAllocator) = blocks at hvalid hfin ⊢
  generalize hpageUnits : (⟨pageUnits op.memoryType op.getPhysSpace,
    (op.address / 2097152 + op.size / 2097152) * 512, op.size % 2097152 / 4096⟩ :
    Stretch MemoryAllocator) = pages at hvalid hfin ⊢
  simp only [List.forall_mem_cons, List.foldl_cons, List.foldl_nil] at hvalid hfin ⊢
  obtain ⟨hvalidBlocks, hvalidPages, -⟩ := hvalid
  have hblockRange : blocks.first * blocks.kind.unitSize = op.address ∧
      (blocks.first + blocks.count) * blocks.kind.unitSize = mid := by
    subst hblocks
    simp only [UnitKind.unitSize, blockUnits, mmuSizeOfLevelRegion_two]
    omega
  have hpageRange : pages.first * pages.kind.unitSize = mid ∧
      (pages.first + pages.count) * pages.kind.unitSize = op.address + op.size := by
    subst hpageUnits
    simp only [UnitKind.unitSize, pageUnits, mmuSizeOfLevelRegion_three]
    omega
  have hblockKind : blocks.kind.destinationLevel = 2 ∧ blocks.kind.memoryType = op.memoryType ∧
      blocks.kind.getPhysSpace = getPhysSpaceOneToOne := by
    subst hblocks
    exact ⟨rfl, rfl, hcallback⟩
  have hpageKind : pages.kind.destinationLevel = 3 ∧ pages.kind.memoryType = op.memoryType ∧
      pages.kind.getPhysSpace = getPhysSpaceOneToOne := by
    subst hpageUnits
    exact ⟨rfl, rfl, hcallback⟩
  have hcovers : ∀ va, op.address ≤ va → va < op.address + op.size → kernelMemoryType va = op.memoryType :=
    fun va hva hva' => htype va ⟨hva, hva'⟩
  -- the blocks
  have hblockType : ∀ va, blocks.first * blocks.kind.unitSize ≤ va →
      va < (blocks.first + blocks.count) * blocks.kind.unitSize →
      kernelMemoryType va = blocks.kind.memoryType := fun va hva hva' => by
    rw [hblockKind.2.1]
    exact hcovers va (by omega) (by omega)
  obtain ⟨t₁, hmaps₁, h₁⟩ := h.stretch hholds hvalidBlocks hblockKind.2.2 (hblockKind.2.1 ▸ hmemoryType)
    hblockType (.inl ⟨hblockKind.1, hnode⟩) (by omega) (by omega)
    ((Stretch.map_recordedIn hvalidPages _ _ _).trans hfin)
  have hnode₁ : ∀ n, t₁.node 3 n = none := fun n =>
    hmaps₁.grown.node_none (hnode n) fun hhangs => by
      have := hhangs.2.1
      omega
  -- the pages behind them
  have hpageType : ∀ va, pages.first * pages.kind.unitSize ≤ va →
      va < (pages.first + pages.count) * pages.kind.unitSize →
      kernelMemoryType va = pages.kind.memoryType := fun va hva hva' => by
    rw [hpageKind.2.1]
    exact hcovers va (by omega) (by omega)
  obtain ⟨t₂, hmaps₂, h₂⟩ := h₁.stretch hmaps₁.holds hvalidPages hpageKind.2.2
    (hpageKind.2.1 ▸ hmemoryType) hpageType (.inr ⟨hpageKind.1, by omega⟩) (by omega) (by omega) hfin
  rw [hpageRange.2] at h₂
  have hadded := (UnitsAdded.of_maps hvalidBlocks.regular hmaps₁).trans
    (.of_maps hvalidPages.regular hmaps₂)
  refine ⟨t₂, hmaps₂.holds, h₂, hadded, fun hblock n => hmaps₂.grown.node_none (hnode₁ n) fun hhangs => ?_⟩
  have hnone : pages.count = 0 := by
    subst hpageUnits
    simp only [hblock]
  obtain ⟨-, -, m, hmlo, hmhi, -⟩ := hhangs
  omega

end IdentityTree

/-- The insertion of a region of the kernel. -/
def kernelInsertion (region : MemoryRegion) : Insertion MemoryAllocator :=
  { address := region.va, size := region.size, memoryType := region.memoryType
    getPhysSpace := getPhysSpaceOneToOne }

theorem kernelInsertions_eq (size : Nat) : kernelInsertions size = [kernelInsertion normalMemoryRegion1,
    kernelInsertion peripheralsRegion, kernelInsertion (normalMemoryRegion2 size)] := rfl

theorem kernelMemoryType_of_before {va : Nat} (h : va < 0xF0000000) :
    kernelMemoryType va = memoryTypeNormalNoCache := by
  refine if_neg fun hin => ?_
  rw [peripherialsStart] at hin
  omega

theorem kernelMemoryType_of_window {va : Nat} (h : 0xF0000000 ≤ va ∧ va < 0x100000000) :
    kernelMemoryType va = memoryTypeDevice := if_pos h

theorem kernelMemoryType_of_behind {va : Nat} (h : 0x100000000 ≤ va) :
    kernelMemoryType va = memoryTypeNormalNoCache := by
  refine if_neg fun hin => ?_
  rw [peripherialsEnd] at hin
  omega

/-- The three regions of `memory_init` extend the boot's map to the end of the RAM, by units. -/
theorem memoryInit_unitsAdded (memory : Nat → BitVec 64) {mem : Nat → Nat} {root kernelEnd : Nat}
    (hlow : 2 ^ 32 ≤ size) (hhigh : size ≤ 2 ^ 39) (hpages : size % 4096 = 0) {fin : Memory}
    (hholds : Holds fin root (blank mem (memoryInitAllocator memory kernelEnd size)) (bootTree root))
    (hfin : RecordedIn (memoryInit memory mem (setKernelSpace root) kernelEnd size) fin) :
    ∃ t, Holds fin root (memoryInit memory mem (setKernelSpace root) kernelEnd size) t ∧
      IdentityTree t size size ∧ UnitsAdded (bootTree root) t := by
  have hend₁ : (kernelInsertion normalMemoryRegion1).address + (kernelInsertion normalMemoryRegion1).size =
      0xF0000000 := by decide
  have hend₂ : (kernelInsertion peripheralsRegion).address + (kernelInsertion peripheralsRegion).size =
      peripherialsEnd := by decide
  have hsize : (kernelInsertion (normalMemoryRegion2 size)).size = size - 2 ^ 32 := sub64_of_le hlow
  have haddress : (kernelInsertion (normalMemoryRegion2 size)).address = peripherialsEnd := rfl
  have hend₃ : (kernelInsertion (normalMemoryRegion2 size)).address +
      (kernelInsertion (normalMemoryRegion2 size)).size = size := by
    rw [hsize, haddress, peripherialsEnd]
    omega
  have hspace := fun op hop => @kernelInsertions_space size hlow (by omega) op hop
  have hrecorded : ∀ op ∈ kernelInsertions size, ∀ s,
      RecordedIn s (op.apply allocatorPages (setKernelSpace root) s) := fun op hop s => by
    obtain ⟨haligned, hroom, hsmall⟩ := hspace op hop
    rw [Insertion.apply_eq_blockStretches haligned hroom hsmall]
    exact Stretch.foldl_recordedIn (Insertion.blockStretches_valid haligned hroom hsmall) _ _ _
  have hrun := memoryInit_eq_insertions memory mem (setKernelSpace root) kernelEnd size
  generalize memoryInit memory mem (setKernelSpace root) kernelEnd size = m at hfin hrun ⊢
  rw [kernelInsertions_eq] at hspace hrecorded hrun
  simp only [List.forall_mem_cons, List.foldl_cons, List.foldl_nil] at hspace hrecorded hrun
  obtain ⟨⟨haligned₁, hroom₁, hsmall₁⟩, ⟨haligned₂, hroom₂, hsmall₂⟩, ⟨haligned₃, hroom₃, hsmall₃⟩, -⟩ :=
    hspace
  obtain ⟨-, hrecorded₂, hrecorded₃, -⟩ := hrecorded
  obtain ⟨t₁, hholds₁, h₁, hadded₁, hnode₁⟩ := (IdentityTree.boot root).insertion hholds
    (fun n => bootTree_node_eq_none (by omega)) haligned₁ hroom₁ hsmall₁ (by decide) rfl (by decide)
    (fun va hva => kernelMemoryType_of_before (Nat.lt_of_lt_of_eq hva.2 hend₁)) (Nat.zero_le _) (by decide)
    (((hrecorded₂ _).trans (hrecorded₃ _)).trans (hrun ▸ hfin))
  obtain ⟨t₂, hholds₂, h₂, hadded₂, hnode₂⟩ := h₁.insertion hholds₁ (hnode₁ (by decide)) haligned₂ hroom₂ hsmall₂
    (by decide) rfl (by decide) (fun va hva => kernelMemoryType_of_window hva) (Nat.le_refl _) (by decide)
    ((hrecorded₃ _).trans (hrun ▸ hfin))
  obtain ⟨t₃, hholds₃, h₃, hadded₃, -⟩ := h₂.insertion hholds₂ (hnode₂ (by decide)) haligned₃ hroom₃ hsmall₃
    (by rw [hsize]; omega) rfl (Nat.zero_lt_succ 7) (fun va hva => kernelMemoryType_of_behind hva.1)
    (haddress ▸ hend₂.ge) (by rw [hend₂, haddress]; exact Nat.le_add_right _ _) (hrun ▸ hfin)
  rw [hend₃] at h₃
  exact ⟨t₃, hrun ▸ hholds₃, h₃, (hadded₁.trans hadded₂).trans hadded₃⟩

theorem memoryInit_identityTree (memory : Nat → BitVec 64) {mem : Nat → Nat} {root kernelEnd : Nat}
    (hlow : 2 ^ 32 ≤ size) (hhigh : size ≤ 2 ^ 39) (hpages : size % 4096 = 0)
    (hholds : Holds (memoryInit memory mem (setKernelSpace root) kernelEnd size) root
      (blank mem (memoryInitAllocator memory kernelEnd size)) (bootTree root)) :
    ∃ t, HoldsTree (memoryInit memory mem (setKernelSpace root) kernelEnd size).mem root t ∧
      IdentityTree t size size := by
  obtain ⟨t, hholds', hidentity, -⟩ := memoryInit_unitsAdded memory hlow hhigh hpages hholds (.refl _)
  exact ⟨t, hholds'.tree, hidentity⟩

/-- The tables of the boot code lie in the image, those of `memory_init` behind the bitmap. -/
theorem memoryInit_holds (memory : Nat → BitVec 64) {mem : Nat → Nat} {root : Nat}
    (hroot : root % 4096 = 0) (hinside : root + 3 * 4096 ≤ image)
    (hclear : ∀ w, root / 8 ≤ w → w < root / 8 + 3 * 512 → mem w = 0) (hpage : image % 4096 = 0)
    (himage : image < 2 ^ 29) (hlow : 2 ^ 32 ≤ size) (hhigh : size ≤ 2 ^ 39) :
    Holds (memoryInit memory (setupTables mem (setKernelSpace root)) (setKernelSpace root)
        (setKernelSpace image) size) root
      (blank (setupTables mem (setKernelSpace root))
        (memoryInitAllocator memory (setKernelSpace image) size)) (bootTree root) := by
  have htree := setupTables_holdsTree (clearKernelSpace_setKernelSpace (by omega)) hroot (by omega) hclear
  obtain ⟨n, hn, -, htables⟩ := memoryInit_heap memory (setupTables mem (setKernelSpace root)) root hpage
    ⟨by omega, himage⟩ hlow hhigh
  refine ⟨by rwa [blank_mem], ?_⟩
  refine ⟨_, by rw [blank_tables, List.append_nil], ?_, fun a ha => ?_⟩
  · rw [htables, List.nodup_reverse]
    exact (List.nodup_range' ..).map fun x y hxy => Nat.eq_of_mul_eq_mul_right (by decide) hxy
  · rw [htables, List.mem_reverse, List.mem_map] at ha
    obtain ⟨k, hk, rfl⟩ := ha
    rw [List.mem_range'_1] at hk
    have hbound := firstFree_add_le himage hhigh hn
    have hbehind : image / 4096 ≤ firstFree image size := Nat.le_add_right _ _
    refine ⟨⟨Nat.mul_mod_left .., by omega⟩, fun htable => ?_⟩
    obtain ⟨level, i, hnode⟩ := htable
    obtain ⟨⟨hlevel, -⟩, heq⟩ := bootTree_node_eq_some.mp hnode
    omega

/-- The kernel's address space is the identity map of the RAM, and the pages taken for its
tables are distinct, behind the image and the bitmap, and before the peripherals. -/
structure IdentityMapped (image size root : Nat) (m : Memory) : Prop where
  mapped : ∀ va < size, walk m.mem root va = some ⟨va, kernelMemoryType va⟩
  unmapped : ∀ va, size ≤ va → va < 2 ^ 48 → walk m.mem root va = none
  tables_nodup : m.tables.Nodup
  tables_apart : ∀ a ∈ m.tables, a % 4096 = 0 ∧ image ≤ a ∧ bitmapEnd image size ≤ a ∧
    a + 4096 ≤ peripherialsStart

/-- From the boot's tables `memory_init` makes the identity map, for every size of the
RAM from 4 GB to 512 GB and every end of the image. -/
theorem memoryInit_identityMapped (memory : Nat → BitVec 64) {mem : Nat → Nat} {root : Nat}
    (hroot : root % 4096 = 0) (hinside : root + 3 * 4096 ≤ image)
    (hclear : ∀ w, root / 8 ≤ w → w < root / 8 + 3 * 512 → mem w = 0) (hpage : image % 4096 = 0)
    (himage : image < 512 * mbInB) (hpages : size % 4096 = 0) (hlow : 4 * gbInB ≤ size)
    (hhigh : size ≤ 512 * gbInB) :
    IdentityMapped image size root (memoryInit memory (setupTables mem (setKernelSpace root))
      (setKernelSpace root) (setKernelSpace image) size) := by
  have hmb : mbInB = 2 ^ 20 := by decide
  have hgb : gbInB = 2 ^ 30 := by decide
  rw [hmb] at himage
  rw [hgb] at hlow hhigh
  have hholds := memoryInit_holds memory hroot hinside hclear hpage himage hlow hhigh
  obtain ⟨taken, htaken, hnodup, htables⟩ := hholds.fresh
  obtain ⟨t, htree, hidentity⟩ := memoryInit_identityTree memory hlow hhigh hpages hholds
  obtain ⟨n, hn, -, hpagesTaken⟩ := memoryInit_heap memory (setupTables mem (setKernelSpace root)) root
    hpage ⟨by omega, himage⟩ hlow hhigh
  refine ⟨fun va hva => ?_, fun va hva hva' => ?_, ?_, fun a ha => ?_⟩
  · obtain ⟨level, hsome⟩ := hidentity.mapped va hva
    obtain ⟨e, he⟩ := Option.isSome_iff_exists.mp hsome
    rw [htree.walk_of_leaf (by omega) he, (hidentity.leaf he).2.2 va rfl]
  · refine htree.walk_of_no_leaf hva' fun level => ?_
    cases hleaf : t.leaf level (slotNumber level va) with
    | none => rfl
    | some e =>
      have hend := (hidentity.leaf hleaf).2.1
      have := Nat.lt_mul_div_succ va (regionSize_pos level)
      rw [slotNumber, Nat.mul_comm] at hend
      omega
  · rw [htaken, blank_tables, List.append_nil]
    exact hnodup
  · rw [hpagesTaken, List.mem_reverse, List.mem_map] at ha
    obtain ⟨k, hk, rfl⟩ := ha
    rw [List.mem_range'_1] at hk
    have hbound := firstFree_add_le himage hhigh hn
    have hbehind : image / 4096 ≤ firstFree image size := Nat.le_add_right _ _
    rw [bitmapEnd_eq hpage himage hhigh, peripherialsStart]
    omega

/-- A RAM of 4 GB and an image that ends at 1 MB, with the boot's tables at its end. -/
theorem memoryInit_identityMapped_fourGb :
    IdentityMapped 0x100000 (4 * gbInB) 0xFD000 (memoryInit (fun _ => 0#64)
      (setupTables (fun _ => 0) (setKernelSpace 0xFD000)) (setKernelSpace 0xFD000)
      (setKernelSpace 0x100000) (4 * gbInB)) :=
  memoryInit_identityMapped (fun _ => 0#64) (by decide) (by decide) (fun _ _ _ => rfl) (by decide)
    (by decide) (by decide) (by decide) (by decide)

end PiVOS
