-- SUMMARY: The address space of a process: how it is made, and the bytes a program sees in it.
import PiVOS.Lib.Packed
import PiVOS.Memory.Contexts
import PiVOS.Memory.Mmu.Destroy
import PiVOS.Proc

/-!
# Address spaces

The space of a process is one block of 2 MB at address 0. It is made of four grants
of the allocator: a table on each of the levels 0 to 2, and the block. A program
reaches memory byte by byte, through the walk from the level-0 table.
-/

namespace PiVOS

/-! ## Bytes -/

/-- The byte of memory at physical address `pa`. -/
def byteAt (mem : Nat → Nat) (pa : Nat) : UInt8 :=
  ⟨(BitVec.ofNat 64 (mem (pa / 8))).extractLsb' (pa % 8 * 8) 8⟩

def storeByte (mem : Nat → Nat) (pa : Nat) (c : UInt8) : Nat → Nat :=
  Function.update mem (pa / 8) (Packed.replaceBits (BitVec.ofNat 64 (mem (pa / 8)))
    (BitVec.ofNat 64 (2 ^ 8 - 1)) (c.toBitVec.setWidth 64) (pa % 8 * 8)).toNat

theorem byteAt_congr {mem mem' : Nat → Nat} {pa : Nat} (h : mem' (pa / 8) = mem (pa / 8)) :
    byteAt mem' pa = byteAt mem pa := by
  rw [byteAt, byteAt, h]

theorem byteAt_storeByte (mem : Nat → Nat) (pa : Nat) (c : UInt8) (pa' : Nat) :
    byteAt (storeByte mem pa c) pa' = if pa' = pa then c else byteAt mem pa' := by
  have hvalue : (c.toBitVec.setWidth 64).toNat < 2 ^ 8 := by
    rw [BitVec.toNat_setWidth, Nat.mod_eq_of_lt (c.toBitVec.isLt.trans (by decide))]
    exact c.toBitVec.isLt
  by_cases hword : pa' / 8 = pa / 8
  · rw [byteAt, storeByte, hword, Function.update_self, BitVec.ofNat_toNat, BitVec.setWidth_eq,
      Packed.extract_replaceBits _ hvalue _ (by omega), BitVec.setWidth_setWidth_of_le _ (by decide),
      BitVec.setWidth_eq]
    by_cases hpa : pa' = pa
    · rw [if_pos (by rw [hpa]), if_pos hpa]
    · rw [if_neg (by omega), if_neg hpa, byteAt, hword]
  · have hpa : pa' ≠ pa := by
      rintro rfl
      exact hword rfl
    rw [if_neg hpa]
    exact byteAt_congr (Function.update_of_ne hword _ _)

theorem storeByte_of_ne (mem : Nat → Nat) (pa : Nat) (c : UInt8) {w : Nat} (h : w ≠ pa / 8) :
    storeByte mem pa c w = mem w := Function.update_of_ne h _ _

/-! ## What a program sees -/

namespace Memory

/-- Where `va` lies in memory, through the tables at `ttbr0`, whose upper bits hold the ASID. -/
def userAddress (m : Memory) (ttbr0 va : Nat) : Option Nat :=
  if va < 2 ^ 48 then (walk m.mem (ttbr0 % 2 ^ 48) va).map Translation.pa else none

def userLoad (m : Memory) (ttbr0 va : Nat) : Option UInt8 :=
  (m.userAddress ttbr0 va).map (byteAt m.mem)

/-- A store that faults changes nothing. -/
def userStore (m : Memory) (ttbr0 va : Nat) (c : UInt8) : Memory :=
  match m.userAddress ttbr0 va with
  | some pa => { m with mem := storeByte m.mem pa c }
  | none => m

end Memory

/-! ## Spaces -/

/-- The pages of an address space: its tables and its block. -/
structure Space where
  root : Nat
  level1 : Nat
  level2 : Nat
  block : Nat

/-- The table at `a` has the descriptor `e` in its first slot and is empty otherwise. -/
def FirstSlot (mem : Nat → Nat) (a e : Nat) : Prop :=
  ∀ i < 512, mem (a / 8 + i) = if i = 0 then e else 0

theorem FirstSlot.congr {mem mem' : Nat → Nat} {a e : Nat} (h : FirstSlot mem a e)
    (hsame : ∀ w, InTable a w → mem' w = mem w) : FirstSlot mem' a e := fun i hi => by
  rw [hsame _ (inTable_slot hi), h i hi]

namespace Space

/-- Word `w` of memory belongs to a table of the space. -/
def IsTableWord (p : Space) (w : Nat) : Prop :=
  InTable p.root w ∨ InTable p.level1 w ∨ InTable p.level2 w

def blockEntry (p : Space) : Nat := mmuBlockEntryBits 2 p.block memoryTypeNormalNoCache

/-- The grants are pages and a block, and none is given twice. -/
structure Apart (p : Space) : Prop where
  root : IsTableAddress p.root
  level1 : IsSubtableAddress p.level1
  level2 : IsSubtableAddress p.level2
  block : p.block % 2 ^ 21 = 0
  block_lt : p.block < 2 ^ 48
  root_level1 : p.root ≠ p.level1
  root_level2 : p.root ≠ p.level2
  level1_level2 : p.level1 ≠ p.level2
  tables : ∀ pa, p.block ≤ pa → pa < p.block + 2 ^ 21 → ¬p.IsTableWord (pa / 8)

/-- The tables of the space are in memory. -/
structure InMemory (p : Space) (mem : Nat → Nat) : Prop where
  root : FirstSlot mem p.root (mmuTableEntryBits (setKernelSpace p.level1))
  level1 : FirstSlot mem p.level1 (mmuTableEntryBits (setKernelSpace p.level2))
  level2 : FirstSlot mem p.level2 p.blockEntry

variable {p : Space} {mem mem' : Nat → Nat}

theorem blockEntry_type (p : Space) : p.blockEntry % 4 = 1 := by
  rw [blockEntry, mmuBlockEntryBits_two]
  omega

/-- The tables of the space as a tree. -/
def tree (p : Space) : MmuTree where
  node level n :=
    if n = 0 then
      match level with
      | 0 => some p.root
      | 1 => some p.level1
      | 2 => some p.level2
      | _ => none
    else none
  leaf level m := if level = 2 ∧ m = 0 then some p.blockEntry else none

theorem tree_node_eq_some {level n a : Nat} : p.tree.node level n = some a ↔
    n = 0 ∧ (level = 0 ∧ a = p.root ∨ level = 1 ∧ a = p.level1 ∨ level = 2 ∧ a = p.level2) := by
  by_cases hn : n = 0
  · match level with
    | 0 | 1 | 2 => simp [tree, hn, eq_comm]
    | level + 3 => simp [tree]
  · simp [tree, hn]

theorem tree_leaf_eq_some {level m e : Nat} :
    p.tree.leaf level m = some e ↔ level = 2 ∧ m = 0 ∧ e = p.blockEntry := by
  simp only [tree]
  split
  · rename_i hin
    simp [hin, eq_comm]
  · rename_i hout
    simp only [reduceCtorEq, false_iff]
    exact fun h => hout ⟨h.1, h.2.1⟩

theorem outputAddress_blockEntry (hp : p.Apart) : outputAddress 2 p.blockEntry = p.block := by
  have hblock := hp.block
  have hlt := hp.block_lt
  rw [blockEntry, mmuBlockEntryBits_two]
  simp only [outputAddress, regionSize, memoryTypeNormalNoCache]
  omega

theorem InMemory.congr (h : p.InMemory mem) (hsame : ∀ w, p.IsTableWord w → mem' w = mem w) :
    p.InMemory mem' where
  root := h.root.congr fun w hw => hsame w (.inl hw)
  level1 := h.level1.congr fun w hw => hsame w (.inr (.inl hw))
  level2 := h.level2.congr fun w hw => hsame w (.inr (.inr hw))

theorem InMemory.holdsTree (h : p.InMemory mem) (hp : p.Apart) : HoldsTree mem p.root p.tree := by
  have hne := hp.root_level1
  have hne' := hp.root_level2
  have hne'' := hp.level1_level2
  refine ⟨⟨fun {l n a} hnode => ?_, fun {l m e} hleaf => ?_, fun {l m e} hleaf => ?_⟩, fun n => rfl,
    fun {l n a} hnode => ?_, fun {l m e} hleaf => ?_, fun {l n a} hnode => ?_, fun {l n a} hnode => ?_,
    fun {l n l' n' a} hnode hnode' => ?_, fun {l n a} hnode i hi => ?_⟩
  · obtain ⟨rfl, hlevel⟩ := tree_node_eq_some.mp hnode
    rcases hlevel with ⟨hl, -⟩ | ⟨hl, -⟩ | ⟨hl, -⟩
    · omega
    · exact ⟨p.root, tree_node_eq_some.mpr ⟨rfl, .inl ⟨by omega, rfl⟩⟩⟩
    · exact ⟨p.level1, tree_node_eq_some.mpr ⟨rfl, .inr (.inl ⟨by omega, rfl⟩)⟩⟩
  · obtain ⟨rfl, rfl, -⟩ := tree_leaf_eq_some.mp hleaf
    exact ⟨p.level2, tree_node_eq_some.mpr ⟨rfl, .inr (.inr ⟨rfl, rfl⟩)⟩⟩
  · obtain ⟨rfl, rfl, -⟩ := tree_leaf_eq_some.mp hleaf
    rfl
  · obtain ⟨-, hlevel⟩ := tree_node_eq_some.mp hnode
    omega
  · obtain ⟨rfl, -, rfl⟩ := tree_leaf_eq_some.mp hleaf
    exact .inl ⟨.inr rfl, p.blockEntry_type⟩
  · obtain ⟨-, ⟨-, rfl⟩ | ⟨-, rfl⟩ | ⟨-, rfl⟩⟩ := tree_node_eq_some.mp hnode
    · exact hp.root
    · exact hp.level1.table
    · exact hp.level2.table
  · obtain ⟨-, ⟨hl, -⟩ | ⟨-, rfl⟩ | ⟨-, rfl⟩⟩ := tree_node_eq_some.mp hnode
    · cases hl
    · exact hp.level1.2
    · exact hp.level2.2
  · obtain ⟨rfl, hlevel⟩ := tree_node_eq_some.mp hnode
    obtain ⟨rfl, hlevel'⟩ := tree_node_eq_some.mp hnode'
    omega
  · obtain ⟨rfl, hlevel⟩ := tree_node_eq_some.mp hnode
    rw [Nat.zero_mul, Nat.zero_add]
    rcases hlevel with ⟨rfl, rfl⟩ | ⟨rfl, rfl⟩ | ⟨rfl, rfl⟩
    · rw [h.root i hi]
      by_cases hzero : i = 0 <;> simp [MmuTree.slotWord, tree, hzero, mmuEmptyEntry]
    · rw [h.level1 i hi]
      by_cases hzero : i = 0 <;> simp [MmuTree.slotWord, tree, hzero, mmuEmptyEntry]
    · rw [h.level2 i hi]
      by_cases hzero : i = 0 <;> simp [MmuTree.slotWord, tree, hzero, mmuEmptyEntry]

/-- A program sees its block, and nothing else. -/
theorem InMemory.walk_eq (h : p.InMemory mem) (hp : p.Apart) {va : Nat} (hva : va < 2 ^ 48) :
    walk mem p.root va =
      if va < 2 ^ 21 then some ⟨p.block + va, memoryTypeNormalNoCache⟩ else none := by
  have hslot : slotNumber 2 va = 0 ↔ va < 2 ^ 21 := by
    simp only [slotNumber, regionSize]
    omega
  have htree := h.holdsTree hp
  split
  · rename_i hlow
    have hleaf : p.tree.leaf 2 (slotNumber 2 va) = some p.blockEntry :=
      tree_leaf_eq_some.mpr ⟨rfl, hslot.mpr hlow, rfl⟩
    have hindex : p.blockEntry / 2 ^ 2 % 2 ^ 3 = memoryTypeNormalNoCache := by
      rw [blockEntry, mmuBlockEntryBits_two, memoryTypeNormalNoCache]
      omega
    rw [htree.walk_of_leaf hva hleaf, translate, outputAddress_blockEntry hp, hindex, regionSize,
      Nat.mod_eq_of_lt hlow]
  · rename_i hhigh
    refine htree.walk_of_no_leaf hva fun level => ?_
    cases hleaf : p.tree.leaf level (slotNumber level va) with
    | none => rfl
    | some e =>
      obtain ⟨rfl, hzero, -⟩ := tree_leaf_eq_some.mp hleaf
      exact absurd (hslot.mp hzero) hhigh

end Space

/-! ## Making a space -/

namespace Mmu

variable {A : Type} {pages : PageHeap A}

/-- A new table is linked from the first slot of an empty one, and empty itself. -/
theorem linkTable_mem {s : Mmu A} {a b : Nat} (ha : IsTableAddress a) (hb : s.newPage pages = b)
    (hnew : IsTableAddress b) (level w : Nat) :
    (s.linkTable pages (setKernelSpace a) 0 level).mem w =
      if w = a / 8 then mmuTableEntryBits (setKernelSpace b)
      else if InTable b w then 0 else s.mem w := by
  subst hb
  rw [linkTable, mmuCreateTableEntry, write_mem ha, Nat.add_zero, Function.update_apply]
  split
  · rfl
  · exact createTable_mem hnew w

theorem storeUnit_of_granted {kind : UnitKind A} {s : Mmu A} {virtAddr addr : Nat} {heap : A}
    (h : kind.getPhysSpace (kind.request virtAddr) s.heap = (addr, heap)) (table idx : Nat) :
    s.storeUnit kind table idx virtAddr =
      { s with heap, grants := (kind.request virtAddr, addr) :: s.grants }.write table idx
        (kind.entry addr) := by
  rw [storeUnit, Mmu.getPhysSpace, h]

/-- Mapping the first block of an empty root takes two tables and asks the callback for the block. -/
theorem mapUnits_firstBlock {s s₁ s₂ : Mmu A} {root level1 level2 : Nat} (hroot : IsTableAddress root)
    (hempty : s.mem (root / 8) = 0) (hs₁ : s₁ = s.linkTable pages (setKernelSpace root) 0 0)
    (hpage₁ : s.newPage pages = level1) (hlevel1 : IsTableAddress level1) (hne : root ≠ level1)
    (hs₂ : s₂ = s₁.linkTable pages (setKernelSpace level1) 0 1)
    (hpage₂ : s₁.newPage pages = level2) (hlevel2 : IsTableAddress level2) (hne' : level1 ≠ level2)
    (memoryType : Nat) (getPhysSpace : GetPhysSpace A) :
    s.mmuMapUnits pages (blockUnits memoryType getPhysSpace) (setKernelSpace root) 0 0 1 =
      s₂.storeUnit (blockUnits memoryType getPhysSpace) (setKernelSpace level2) 0 0 := by
  have hread : ∀ {s' : Mmu A} {a : Nat}, IsTableAddress a → s'.mem (a / 8) = 0 →
      s'.read (setKernelSpace a) 0 = 0 := fun ha hzero => by
    rw [read_eq ha, Nat.add_zero, hzero]
  have hfirst : ∀ {a b : Nat}, IsTableAddress a → IsTableAddress b → a ≠ b → b / 8 ≠ a / 8 :=
    fun ha hb hne h => by
      have := ha.page
      have := hb.page
      omega
  have hself : ∀ a, InTable a (a / 8) := fun a => ⟨Nat.le_refl _, by omega⟩
  have hempty₁ : s₁.mem (level1 / 8) = 0 := by
    rw [hs₁, linkTable_mem hroot hpage₁ hlevel1, if_neg (hfirst hroot hlevel1 hne), if_pos (hself _)]
  have hempty₂ : s₂.mem (level2 / 8) = 0 := by
    rw [hs₂, linkTable_mem hlevel1 hpage₂ hlevel2, if_neg (hfirst hlevel1 hlevel2 hne'),
      if_pos (hself _)]
  have hdescend₁ : descend pages 0 ⟨setKernelSpace root, 0, s⟩ = ⟨setKernelSpace level1, 0, s₁⟩ := by
    rw [descend_of_empty (by decide) (by decide) (hread hroot hempty), hs₁, ← hpage₁]
    rfl
  have hdescend₂ : descend pages 1 ⟨setKernelSpace level1, 0, s₁⟩ =
      ⟨setKernelSpace level2, 0, s₂⟩ := by
    rw [descend_of_empty (by decide) (by decide) (hread hlevel1 hempty₁), hs₂, ← hpage₂]
    rfl
  have htraverse : s.mmuTraverseAndAllocTables pages (setKernelSpace root) 0 0 2 =
      ({ table := setKernelSpace level2, idx := 0, level := 2 }, s₂) := by
    simp only [mmuTraverseAndAllocTables, forRange, hdescend₁, hdescend₂]
    rfl
  rw [mapUnits_one, mapRound]
  simp only [Nat.zero_add, u64_of_lt (show 0 < 2 ^ 64 by decide)]
  rw [show (blockUnits memoryType getPhysSpace).destinationLevel = 2 from rfl, htraverse]
  exact mapUnit_of_empty (UnitKind.blockUnits_regular ..) (hread hlevel2 hempty₂)

end Mmu

/-- What the allocator grants for a space, one request after the other. -/
def spaceGrants (a : MemoryAllocator) : Space × MemoryAllocator :=
  let (root, a) := allocatorPages.pagesAlloc a 1 1
  let (level1, a) := allocatorPages.pagesAlloc a 1 1
  let (level2, a) := allocatorPages.pagesAlloc a 1 1
  let (block, a) := allocatorPages.pagesAlloc a 512 512
  ({ root, level1, level2, block }, a)

namespace Memory

/-- The context of a process with its region, as `kproc_alloc` makes it. -/
def createSpace (m : Memory) : Nat × Memory :=
  let (level0Table, m) := m.memoryCreateContext
  (level0Table, m.memoryMapRegion level0Table kprocRegion .alloc)

/-- The call of `memory_mmu_insert` for the region. -/
def kprocInsertion : Mmu.Insertion MemoryAllocator :=
  { address := 0, size := 2097152, memoryType := memoryTypeNormalNoCache
    getPhysSpace := getPhysSpaceAlloc }

theorem memoryMapRegion_kprocRegion (m : Memory) (table : Nat) :
    m.memoryMapRegion table kprocRegion .alloc =
      m.mmuMapUnits allocatorPages (Mmu.blockUnits memoryTypeNormalNoCache getPhysSpaceAlloc) table
        0 0 1 := by
  have hsize : kprocRegion.size = 2097152 := by decide
  have hcall : m.memoryMapRegion table kprocRegion .alloc =
      kprocInsertion.apply allocatorPages table m := by
    rw [memoryMapRegion, hsize]
    rfl
  have hvalid : kprocInsertion.Valid := by constructor <;> decide
  rw [hcall, Mmu.Insertion.apply_of_blockStart hvalid allocatorPages table m (by decide)
    (show 0 < 1 by decide) (by decide) (show 0 < 512 by decide), Mmu.Insertion.mapUnits_zero]
  rfl

/-- Memory after the tables of a space have been made, the last of them last. -/
def createdMem (p : Space) (mem : Nat → Nat) (w : Nat) : Nat :=
  if w = p.level2 / 8 then p.blockEntry
  else if w = p.level1 / 8 then mmuTableEntryBits (setKernelSpace p.level2)
  else if InTable p.level2 w then 0
  else if w = p.root / 8 then mmuTableEntryBits (setKernelSpace p.level1)
  else if InTable p.level1 w then 0
  else if InTable p.root w then 0
  else mem w

theorem createSpace_eq {m : Memory} {p : Space} {a : MemoryAllocator}
    (hgrants : spaceGrants m.heap = (p, a)) (hp : p.Apart) :
    m.createSpace.1 = setKernelSpace p.root ∧ m.createSpace.2.heap = a ∧
      ∀ w, m.createSpace.2.mem w = createdMem p m.mem w := by
  obtain ⟨root, level1, level2, block⟩ := p
  obtain ⟨hroot, hlevel1, hlevel2, -, -, hne, -, hne'', -⟩ := hp
  simp only at hroot hlevel1 hlevel2 hne hne''
  replace hlevel1 := hlevel1.table
  replace hlevel2 := hlevel2.table
  obtain ⟨s, hs⟩ : ∃ s, s = (m.memoryMmuCreateTable allocatorPages).2 := ⟨_, rfl⟩
  obtain ⟨s₁, hs₁⟩ : ∃ s₁, s₁ = s.linkTable allocatorPages (setKernelSpace root) 0 0 := ⟨_, rfl⟩
  obtain ⟨s₂, hs₂⟩ : ∃ s₂, s₂ = s₁.linkTable allocatorPages (setKernelSpace level1) 0 1 := ⟨_, rfl⟩
  have hheap : s.heap = (allocatorPages.pagesAlloc m.heap 1 1).2 := by rw [hs]; rfl
  have hheap₁ : s₁.heap = (allocatorPages.pagesAlloc s.heap 1 1).2 := by rw [hs₁]; rfl
  have hheap₂ : s₂.heap = (allocatorPages.pagesAlloc s₁.heap 1 1).2 := by rw [hs₂]; rfl
  obtain ⟨hpage, hpage₁, hpage₂, hgrant⟩ : m.newPage allocatorPages = root ∧
      s.newPage allocatorPages = level1 ∧ s₁.newPage allocatorPages = level2 ∧
      allocatorPages.pagesAlloc s₂.heap 512 512 = (block, a) := by
    simp only [spaceGrants, Prod.mk.injEq, Space.mk.injEq] at hgrants
    obtain ⟨⟨h₀, h₁, h₂, h₃⟩, h₄⟩ := hgrants
    rw [Mmu.newPage, Mmu.newPage, Mmu.newPage, hheap₂, hheap₁, hheap]
    exact ⟨h₀, h₁, h₂, Prod.ext h₃ h₄⟩
  have hmem : ∀ w, s.mem w = if InTable root w then 0 else m.mem w := fun w => by
    rw [hs, Mmu.createTable_mem (hpage ▸ hroot), hpage]
  have hmem₁ := fun w => hs₁ ▸ Mmu.linkTable_mem hroot hpage₁ hlevel1 0 w
  have hmem₂ := fun w => hs₂ ▸ Mmu.linkTable_mem hlevel1 hpage₂ hlevel2 1 w
  have hcreate : m.createSpace = (setKernelSpace root, s₂.storeUnit
      (Mmu.blockUnits memoryTypeNormalNoCache getPhysSpaceAlloc) (setKernelSpace level2) 0 0) := by
    have hempty : s.mem (root / 8) = 0 := by rw [hmem, if_pos ⟨Nat.le_refl _, by omega⟩]
    have hunfold : m.createSpace = (setKernelSpace (m.newPage allocatorPages),
        Memory.memoryMapRegion (m.memoryMmuCreateTable allocatorPages).2
          (setKernelSpace (m.newPage allocatorPages)) kprocRegion .alloc) := rfl
    rw [hunfold, hpage, ← hs, memoryMapRegion_kprocRegion,
      Mmu.mapUnits_firstBlock hroot hempty hs₁ hpage₁ hlevel1 hne hs₂ hpage₂ hlevel2 hne'']
  have hgranted : (Mmu.blockUnits memoryTypeNormalNoCache getPhysSpaceAlloc).getPhysSpace
      ((Mmu.blockUnits memoryTypeNormalNoCache getPhysSpaceAlloc).request 0) s₂.heap =
        (block, a) := by
    have hrequest : (Mmu.blockUnits memoryTypeNormalNoCache getPhysSpaceAlloc).request 0 =
        { virtAddr := 0, pageCount := 512, align := 512 } := by decide
    rw [hrequest]
    exact hgrant
  have hentry : (Mmu.blockUnits memoryTypeNormalNoCache getPhysSpaceAlloc).entry block =
      mmuBlockEntryBits 2 block memoryTypeNormalNoCache := if_neg (by decide)
  rw [hcreate, Mmu.storeUnit_of_granted hgranted]
  refine ⟨rfl, rfl, fun w => ?_⟩
  rw [Mmu.write_mem hlevel2, Nat.add_zero, hentry, Function.update_apply, hmem₂, hmem₁, hmem]
  rfl

/-- A new space is in memory, and the rest of memory is as it was. -/
structure SpaceCreated (p : Space) (a : MemoryAllocator) (m : Memory) (r : Nat × Memory) : Prop where
  table : r.1 = setKernelSpace p.root
  heap : r.2.heap = a
  inMemory : p.InMemory r.2.mem
  frame : ∀ w, ¬p.IsTableWord w → r.2.mem w = m.mem w

theorem createdMem_inMemory {p : Space} (hp : p.Apart) (mem : Nat → Nat) :
    p.InMemory (createdMem p mem) := by
  have hslot : ∀ a i : Nat, a / 8 + i = a / 8 ↔ i = 0 := fun a i => by omega
  have hother : ∀ {a b w : Nat}, IsTableAddress a → IsTableAddress b → a ≠ b → InTable b w →
      ¬InTable a w ∧ w ≠ a / 8 := fun ha hb hne hw => by
    have hnot : ¬InTable _ _ := fun hw' => hne (ha.eq_of_inTable hb hw' hw)
    exact ⟨hnot, fun heq => hnot ⟨heq.ge, by omega⟩⟩
  constructor
  · intro i hi
    have hw : InTable p.root (p.root / 8 + i) := inTable_slot hi
    have hlevel1 := hother hp.level1.table hp.root hp.root_level1.symm hw
    have hlevel2 := hother hp.level2.table hp.root hp.root_level2.symm hw
    rw [createdMem, if_neg hlevel2.2, if_neg hlevel1.2, if_neg hlevel2.1, if_neg hlevel1.1, if_pos hw]
    exact if_congr (hslot p.root i) rfl rfl
  · intro i hi
    have hw : InTable p.level1 (p.level1 / 8 + i) := inTable_slot hi
    have hroot := hother hp.root hp.level1.table hp.root_level1 hw
    have hlevel2 := hother hp.level2.table hp.level1.table hp.level1_level2.symm hw
    rw [createdMem, if_neg hlevel2.2, if_neg hlevel2.1, if_neg hroot.2, if_pos hw]
    exact if_congr (hslot p.level1 i) rfl rfl
  · intro i hi
    have hw : InTable p.level2 (p.level2 / 8 + i) := inTable_slot hi
    have hlevel1 := hother hp.level1.table hp.level2.table hp.level1_level2 hw
    rw [createdMem, if_neg hlevel1.2, if_pos hw]
    exact if_congr (hslot p.level2 i) rfl rfl

theorem createdMem_of_not_tableWord {p : Space} {w : Nat} (hw : ¬p.IsTableWord w) (mem : Nat → Nat) :
    createdMem p mem w = mem w := by
  have hfirst : ∀ {a w : Nat}, ¬InTable a w → w ≠ a / 8 := fun hnot heq =>
    hnot ⟨heq.ge, by omega⟩
  simp only [Space.IsTableWord, not_or] at hw
  obtain ⟨hroot, hlevel1, hlevel2⟩ := hw
  rw [createdMem, if_neg (hfirst hlevel2), if_neg (hfirst hlevel1), if_neg hlevel2,
    if_neg (hfirst hroot), if_neg hlevel1, if_neg hroot]

theorem createSpace_spec {m : Memory} {p : Space} {a : MemoryAllocator}
    (hgrants : spaceGrants m.heap = (p, a)) (hp : p.Apart) :
    SpaceCreated p a m m.createSpace := by
  obtain ⟨htable, hheap, hmem⟩ := createSpace_eq hgrants hp
  refine ⟨htable, hheap, (createdMem_inMemory hp m.mem).congr fun w _ => hmem w, fun w hw => ?_⟩
  rw [hmem, createdMem_of_not_tableWord hw]

end Memory

/-! ## Loads and stores in a space -/

namespace Space

variable {p : Space} {m m' : Memory} {ttbr0 : Nat}

/-- From `m` to `m'` nothing changed but bytes of the block. -/
structure BlockOnly (p : Space) (m m' : Memory) : Prop where
  heap : m'.heap = m.heap
  frame : ∀ w, (∀ pa, p.block ≤ pa → pa < p.block + 2 ^ 21 → w ≠ pa / 8) → m'.mem w = m.mem w

theorem BlockOnly.refl (p : Space) (m : Memory) : BlockOnly p m m := ⟨rfl, fun _ _ => rfl⟩

theorem BlockOnly.trans {m'' : Memory} (h : BlockOnly p m m') (h' : BlockOnly p m' m'') :
    BlockOnly p m m'' :=
  ⟨h'.heap.trans h.heap, fun w hw => (h'.frame w hw).trans (h.frame w hw)⟩

theorem BlockOnly.inMemory (h : BlockOnly p m m') (hp : p.Apart) (hm : p.InMemory m.mem) :
    p.InMemory m'.mem :=
  hm.congr fun w hw => h.frame w fun pa hlo hhi hpa => hp.tables pa hlo hhi (hpa ▸ hw)

section

variable (hp : p.Apart) (httbr0 : ttbr0 % 2 ^ 48 = p.root)

include hp httbr0

theorem InMemory.userAddress_eq (hm : p.InMemory m.mem) (va : Nat) :
    m.userAddress ttbr0 va = if va < 2 ^ 21 then some (p.block + va) else none := by
  rw [Memory.userAddress, httbr0]
  by_cases hva : va < 2 ^ 48
  · rw [if_pos hva, hm.walk_eq hp hva]
    split <;> rfl
  · rw [if_neg hva, if_neg (by omega)]

theorem InMemory.userLoad_eq (hm : p.InMemory m.mem) (va : Nat) :
    m.userLoad ttbr0 va = if va < 2 ^ 21 then some (byteAt m.mem (p.block + va)) else none := by
  rw [Memory.userLoad, hm.userAddress_eq hp httbr0]
  split <;> rfl

theorem InMemory.userStore_blockOnly (hm : p.InMemory m.mem) (va : Nat) (c : UInt8) :
    BlockOnly p m (m.userStore ttbr0 va c) := by
  rw [Memory.userStore, hm.userAddress_eq hp httbr0]
  split
  · rename_i hsome
    split at hsome
    · obtain rfl := Option.some.inj hsome
      exact ⟨rfl, fun w hw => storeByte_of_ne _ _ _ (hw _ (by omega) (by omega))⟩
    · cases hsome
  · exact .refl p m

theorem InMemory.byteAt_userStore (hm : p.InMemory m.mem) {va v : Nat} (hv : v < 2 ^ 21) (c : UInt8) :
    byteAt (m.userStore ttbr0 va c).mem (p.block + v) =
      if v = va then c else byteAt m.mem (p.block + v) := by
  rw [Memory.userStore, hm.userAddress_eq hp httbr0]
  by_cases hva : va < 2 ^ 21
  · rw [if_pos hva]
    simp only [byteAt_storeByte]
    exact if_congr (by omega) rfl rfl
  · rw [if_neg hva, if_neg (by omega)]

end

end Space

/-! ## What tables occupy -/

/-- A walk from the level 0 table at `root` can come to the table at `a`. -/
inductive TableAt (mem : Nat → Nat) (root : Nat) : (level a : Nat) → Prop
  | root : TableAt mem root 0 root
  | next {level a i : Nat} (h : TableAt mem root level a) (hlevel : level < 3) (hi : i < 512)
      (hentry : mem (a / 8 + i) % 4 = 3) : TableAt mem root (level + 1) (nextTable (mem (a / 8 + i)))

/-- The block or page descriptor `e` is in one of these tables. -/
def LeafAt (mem : Nat → Nat) (root level e : Nat) : Prop :=
  ∃ a i, TableAt mem root level a ∧ i < 512 ∧ mem (a / 8 + i) = e ∧ IsLeafEntry level e

/-- The byte at `pa` belongs to one of these tables or to the memory they map. -/
def Occupied (mem : Nat → Nat) (root pa : Nat) : Prop :=
  (∃ level a, TableAt mem root level a ∧ a ≤ pa ∧ pa < a + 4096) ∨
    ∃ level e, LeafAt mem root level e ∧ outputAddress level e ≤ pa ∧
      pa < outputAddress level e + regionSize level

/-- The tables map the block of 2 MB at `block` and nothing else. -/
def MapsBlock (mem : Nat → Nat) (root block : Nat) : Prop :=
  ∃ e, outputAddress 2 e = block ∧ ∀ level e', LeafAt mem root level e' ↔ level = 2 ∧ e' = e

theorem FirstSlot.eq_of_ne_zero {mem : Nat → Nat} {a e i : Nat} (h : FirstSlot mem a e) (hi : i < 512)
    (hne : mem (a / 8 + i) ≠ 0) : mem (a / 8 + i) = e := by
  rw [h i hi] at hne ⊢
  by_cases hzero : i = 0
  · rw [if_pos hzero]
  · exact absurd (if_neg hzero) hne

namespace Space

variable {p : Space} {mem : Nat → Nat}

/-- The byte at `pa` lies in a table or in the block of the space. -/
def Owns (p : Space) (pa : Nat) : Prop :=
  p.root ≤ pa ∧ pa < p.root + 4096 ∨ p.level1 ≤ pa ∧ pa < p.level1 + 4096 ∨
    p.level2 ≤ pa ∧ pa < p.level2 + 4096 ∨ p.block ≤ pa ∧ pa < p.block + 2 ^ 21

theorem InMemory.tableAt_iff (h : p.InMemory mem) (hp : p.Apart) {level a : Nat} :
    TableAt mem p.root level a ↔
      level = 0 ∧ a = p.root ∨ level = 1 ∧ a = p.level1 ∨ level = 2 ∧ a = p.level2 := by
  have hfirst : ∀ {b c : Nat}, IsTableAddress c →
      FirstSlot mem b (mmuTableEntryBits (setKernelSpace c)) →
      mem (b / 8 + 0) % 4 = 3 ∧ nextTable (mem (b / 8 + 0)) = c := fun hc hslot => by
    rw [hslot 0 (by decide), if_pos rfl, tableEntry_type, nextTable_tableEntry hc]
    exact ⟨rfl, rfl⟩
  constructor
  · intro htable
    induction htable with
    | root => exact .inl ⟨rfl, rfl⟩
    | @next level a i _ _ hi hentry ih =>
      have hne : mem (a / 8 + i) ≠ 0 := fun hzero => by
        rw [hzero] at hentry
        cases hentry
      rcases ih with ⟨rfl, rfl⟩ | ⟨rfl, rfl⟩ | ⟨rfl, rfl⟩
      · rw [h.root.eq_of_ne_zero hi hne, nextTable_tableEntry hp.level1.table]
        exact .inr (.inl ⟨rfl, rfl⟩)
      · rw [h.level1.eq_of_ne_zero hi hne, nextTable_tableEntry hp.level2.table]
        exact .inr (.inr ⟨rfl, rfl⟩)
      · rw [h.level2.eq_of_ne_zero hi hne, p.blockEntry_type] at hentry
        cases hentry
  · have hlevel1 : TableAt mem p.root 1 p.level1 := by
      obtain ⟨hentry, hnext⟩ := hfirst hp.level1.table h.root
      exact hnext ▸ .next .root (by decide) (by decide) hentry
    rintro (⟨rfl, rfl⟩ | ⟨rfl, rfl⟩ | ⟨rfl, rfl⟩)
    · exact .root
    · exact hlevel1
    · obtain ⟨hentry, hnext⟩ := hfirst hp.level2.table h.level1
      exact hnext ▸ .next hlevel1 (by decide) (by decide) hentry

theorem InMemory.leafAt_iff (h : p.InMemory mem) (hp : p.Apart) {level e : Nat} :
    LeafAt mem p.root level e ↔ level = 2 ∧ e = p.blockEntry := by
  constructor
  · rintro ⟨a, i, htable, hi, rfl, hleaf⟩
    have hne : mem (a / 8 + i) ≠ 0 := fun hzero => by
      have := hleaf.valid
      omega
    rcases (h.tableAt_iff hp).mp htable with ⟨rfl, rfl⟩ | ⟨rfl, rfl⟩ | ⟨rfl, rfl⟩
    · rcases hleaf with ⟨hlevel, -⟩ | ⟨hlevel, -⟩ <;> omega
    · have htype := tableEntry_type (setKernelSpace p.level2)
      rw [h.level1.eq_of_ne_zero hi hne] at hleaf
      rcases hleaf with ⟨-, hblock⟩ | ⟨hlevel, -⟩ <;> omega
    · exact ⟨rfl, h.level2.eq_of_ne_zero hi hne⟩
  · rintro ⟨rfl, rfl⟩
    have hslot : mem (p.level2 / 8 + 0) = p.blockEntry := by rw [h.level2 0 (by decide), if_pos rfl]
    exact ⟨p.level2, 0, (h.tableAt_iff hp).mpr (.inr (.inr ⟨rfl, rfl⟩)), by decide, hslot,
      .inl ⟨.inr rfl, p.blockEntry_type⟩⟩

theorem InMemory.mapsBlock (h : p.InMemory mem) (hp : p.Apart) : MapsBlock mem p.root p.block :=
  ⟨p.blockEntry, outputAddress_blockEntry hp, fun _ _ => h.leafAt_iff hp⟩

theorem InMemory.occupied_iff (h : p.InMemory mem) (hp : p.Apart) {pa : Nat} :
    Occupied mem p.root pa ↔ p.Owns pa := by
  simp only [Occupied, h.tableAt_iff hp, h.leafAt_iff hp]
  constructor
  · rintro (⟨level, a, ⟨-, rfl⟩ | ⟨-, rfl⟩ | ⟨-, rfl⟩, hin⟩ | ⟨level, e, ⟨rfl, rfl⟩, hin⟩)
    · exact .inl hin
    · exact .inr (.inl hin)
    · exact .inr (.inr (.inl hin))
    · rw [outputAddress_blockEntry hp] at hin
      exact .inr (.inr (.inr hin))
  · rintro (hin | hin | hin | hin)
    · exact .inl ⟨0, _, .inl ⟨rfl, rfl⟩, hin⟩
    · exact .inl ⟨1, _, .inr (.inl ⟨rfl, rfl⟩), hin⟩
    · exact .inl ⟨2, _, .inr (.inr ⟨rfl, rfl⟩), hin⟩
    · refine .inr ⟨2, _, ⟨rfl, rfl⟩, ?_⟩
      rw [outputAddress_blockEntry hp]
      exact hin

end Space

/-! ## Destroying a space -/

namespace Space

variable {p : Space}

theorem parts_tree (p : Space) :
    p.tree.parts 4 0 0 = [.leaf 2 0, .table 2 0, .table 1 0, .table 0 0] := by
  have hempty : ∀ level i, 0 < i → i < 512 → p.tree.leaf level (0 * 512 + i) = none ∧
      p.tree.node (level + 1) (0 * 512 + i) = none := fun level i hpos _ =>
    ⟨if_neg (by omega), if_neg (by omega)⟩
  have hfirst : ∀ levels, p.tree.slotParts levels 0 (0 * 512) = p.tree.parts levels 1 0 ∧
      p.tree.slotParts levels 1 (0 * 512) = p.tree.parts levels 2 0 ∧
      p.tree.slotParts levels 2 (0 * 512) = [.leaf 2 0] := fun levels => ⟨rfl, rfl, rfl⟩
  rw [MmuTree.parts_of_firstSlot 3 (hempty 0), (hfirst 3).1, MmuTree.parts_of_firstSlot 2 (hempty 1),
    (hfirst 2).2.1, MmuTree.parts_of_firstSlot 1 (hempty 2), (hfirst 1).2.2]
  rfl

/-- What destroying the space leaves of the allocator. -/
def giveBack (p : Space) (a : MemoryAllocator) : MemoryAllocator :=
  (((a.freePages p.block 512).freePages (setKernelSpace p.level2) 1).freePages
    (setKernelSpace p.level1) 1).freePages (setKernelSpace p.root) 1

theorem InMemory.destroyContext {m : Memory} (hm : p.InMemory m.mem) (hp : p.Apart) {rounds : Nat}
    (hrounds : Mmu.subtreeRounds 3 ≤ rounds) :
    ∃ m', m.memoryDestroyContext rounds (setKernelSpace p.root) = .ok m' ∧
      m'.heap = p.giveBack m.heap ∧ ∀ w, ¬InTable p.root w → m'.mem w = m.mem w := by
  have hno : p.tree.NoLastTable := fun level n _ _ => by simp [tree]
  have hheap : Mmu.heapAfter allocatorPages p.tree m.heap (p.tree.parts 4 0 0) = p.giveBack m.heap := by
    have hleaf : p.tree.leaf 2 0 = some p.blockEntry := tree_leaf_eq_some.mpr ⟨rfl, rfl, rfl⟩
    have hblock : p.tree.partCall (.leaf 2 0) = (p.block, 512) := by
      rw [MmuTree.partCall, hleaf, Option.getD_some, outputAddress_blockEntry hp, mmuPageSize_eq]
      rfl
    rw [parts_tree, Mmu.heapAfter, List.foldl_cons, hblock]
    rfl
  have hlow : p.tree.PagesLow := fun m e hleaf => absurd (tree_leaf_eq_some.mp hleaf).1 (by decide)
  rcases Mmu.destroyTable_spec allocatorPages (hm.holdsTree hp) hlow hrounds with
    ⟨-, m', hok, hreleased⟩ | ⟨hlast, -⟩
  · exact ⟨m', hok, hreleased.heap.trans hheap, hreleased.frame⟩
  · exact absurd hno hlast

end Space

end PiVOS
