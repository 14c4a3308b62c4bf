-- SUMMARY: The translation table code of `memory/mmu.c`.
import PiVOS.Lib.Loop
import PiVOS.Memory.Mmu.Reg

/-!
# Translation tables in memory

Tables are 512 words of memory. A table is passed around as the kernel pointer
to it, and word `i` of the table at `ptr` is the memory word `ptr` points to
plus `i`. Physical pages come from an allocator and from a callback, both
parameters with a state of their own.

The state also keeps a record of what happened, which no function reads: the
pages taken for tables, the callback's answers, and whether an assertion failed.
-/

namespace PiVOS

/-- `mmu_phys_space_request`. -/
structure MmuPhysSpaceRequest where
  virtAddr : Nat
  pageCount : Nat
  align : Nat
deriving DecidableEq

/-- The functions given to `memory_mmu_init`, on the allocator's states `A`. -/
structure PageHeap (A : Type) where
  pagesAlloc : A → (number align : Nat) → Nat × A
  pagesDealloc : A → (addr number : Nat) → A

/-- A `memory_mmu_get_phys_space_callback`. -/
abbrev GetPhysSpace (A : Type) := MmuPhysSpaceRequest → A → Nat × A

structure Mmu (A : Type) where
  mem : Nat → Nat
  heap : A
  tables : List Nat
  grants : List (MmuPhysSpaceRequest × Nat)
  trapped : Bool

/-- A slot of a table. -/
structure MmuEntryInfo where
  table : Nat
  idx : Nat
  level : Nat

namespace Mmu

variable {A : Type}

/-! ## Memory -/

/-- The memory word `table[idx]`. -/
def wordOf (table idx : Nat) : Nat := clearKernelSpace table / 8 + idx

def read (s : Mmu A) (table idx : Nat) : Nat := s.mem (wordOf table idx)

def write (s : Mmu A) (table idx entry : Nat) : Mmu A :=
  { s with mem := Function.update s.mem (wordOf table idx) entry }

/-- `byteset((uint8_t*)table, 0, MMU_PAGE_SIZE)`. -/
def clearPage (s : Mmu A) (table : Nat) : Mmu A :=
  { s with mem := fun w =>
      if wordOf table 0 ≤ w ∧ w < wordOf table (mmuPageSize / 8) then 0 else s.mem w }

/-- `ASSERT(HIGH, condition, ..)`. -/
def assert (s : Mmu A) (condition : Bool) : Mmu A :=
  { s with trapped := s.trapped || !condition }

/-- A call of the callback. -/
def getPhysSpace (s : Mmu A) (callback : GetPhysSpace A) (request : MmuPhysSpaceRequest) :
    Nat × Mmu A :=
  let (addr, heap) := callback request s.heap
  (addr, { s with heap, grants := (request, addr) :: s.grants })

/-! ## Entries -/

def mmuCreateTableEntry (s : Mmu A) (table idx level nextLevelTable : Nat) : Mmu A :=
  (s.assert (level ≠ 3)).write table idx (mmuTableEntryBits nextLevelTable)

def mmuCreateBlockEntry (s : Mmu A) (table idx level address memoryType : Nat) : Mmu A :=
  (s.assert (mmuAreBlockEntriesSupported level)).write table idx
    (mmuBlockEntryBits level address memoryType)

def mmuCreatePageEntry (s : Mmu A) (table idx level address memoryType : Nat) : Mmu A :=
  (s.assert (level = 3)).write table idx (mmuPageEntryBits address memoryType)

def mmuOverrideMemoryType (s : Mmu A) (table idx memoryType : Nat) : Mmu A :=
  s.write table idx (mmuWithMemoryType (s.read table idx) memoryType)

def mmuGetSubtable (s : Mmu A) (table idx level : Nat) : Nat × Mmu A :=
  let entry := s.read table idx
  (setKernelSpace (mmuGetNextLevelTableFromTableEntry entry),
    (s.assert (level ≠ 3)).assert (mmuType entry = mmuTableEntry))

/-! ## Tables -/

variable (pages : PageHeap A)

def memoryMmuCreateTable (s : Mmu A) : Nat × Mmu A :=
  let (addr, heap) := pages.pagesAlloc s.heap 1 1
  let newTable := setKernelSpace addr
  (newTable, { s with heap, tables := addr :: s.tables }.clearPage newTable)

def mmuSplitBlockEntry (s : Mmu A) (table idx level : Nat) : Nat × Mmu A :=
  let (tempTable, s) := s.memoryMmuCreateTable pages
  let entry := s.read table idx
  let nextLevel := level + 1
  -- neither field is read for other levels, where both stay 0
  let memoryType := if level = 1 ∨ level = 2 then mmuAttrIndx entry else 0
  let base := mmuSplitBaseAddress entry level
  let unitSize := mmuSizeOfLevelRegion nextLevel
  let s := s.mmuCreateTableEntry table idx level tempTable
  let createEntry := if mmuAreBlockEntriesSupported nextLevel then mmuCreateBlockEntry
    else mmuCreatePageEntry
  (tempTable, forRange
    (fun unitNumber s =>
      createEntry s tempTable unitNumber nextLevel (u64 (base + unitNumber * unitSize)) memoryType)
    (mmuNumberOfLevelEntries nextLevel) 0 s)

/-- The variables of the loop in `mmu_traverse_and_alloc_tables`. -/
structure Descent (A : Type) where
  table : Nat
  address : Nat
  mmu : Mmu A

/-- One round of that loop: from a table to the one below it. -/
def descend (level : Nat) (d : Descent A) : Descent A :=
  let idx := u32 (d.address / mmuSizeOfLevelRegion level)
  let address := d.address % mmuSizeOfLevelRegion level
  let entry := d.mmu.read d.table idx
  if !mmuEntryValid entry then
    let (newTable, s) := d.mmu.memoryMmuCreateTable pages
    { table := newTable, address, mmu := s.mmuCreateTableEntry d.table idx level newTable }
  else if mmuEntryDescriptor entry then
    let (table, s) := d.mmu.mmuGetSubtable d.table idx level
    { table, address, mmu := s }
  else
    let (table, s) := d.mmu.mmuSplitBlockEntry pages d.table idx level
    { table, address, mmu := s }

def mmuTraverseAndAllocTables (s : Mmu A) (table level address destinationLevel : Nat) :
    MmuEntryInfo × Mmu A :=
  let d := forRange (descend pages) (destinationLevel - level) level ⟨table, address, s⟩
  let currentLevel := max level destinationLevel
  ({ table := d.table, idx := u32 (d.address / mmuSizeOfLevelRegion currentLevel),
     level := currentLevel }, d.mmu)

/-! ## Looking up -/

/-- The variables of the loop in `mmu_find`; `stopped` once it is left by `break`. -/
structure FindCursor (A : Type) extends Descent A where
  level : Nat
  stopped : Bool

def FindCursor.active (c : FindCursor A) : Bool := decide (c.level < 3) && !c.stopped

def findRound (c : FindCursor A) : FindCursor A :=
  let idx := u32 (c.address / mmuSizeOfLevelRegion c.level)
  let address := c.address % mmuSizeOfLevelRegion c.level
  let entry := c.mmu.read c.table idx
  if mmuType entry = mmuTableEntry then
    let (table, mmu) := c.mmu.mmuGetSubtable c.table idx c.level
    { table, address, mmu, level := c.level + 1, stopped := false }
  else { c with address, stopped := true }

/-- After a `break` the address is already that inside the region, so the index is
not that of the entry the loop stopped at. -/
def mmuFind (s : Mmu A) (table level address : Nat) : MmuEntryInfo × Mmu A :=
  let c := loopWhile FindCursor.active findRound (3 - level)
    { table, address, mmu := s, level, stopped := false }
  ({ table := c.table, idx := u32 (c.address / mmuSizeOfLevelRegion c.level), level := c.level },
    c.mmu)

def memoryMmuVaToPa (s : Mmu A) (level0Table va : Nat) : Nat × Mmu A :=
  let (searchResult, s) := s.mmuFind level0Table 0 va
  let entry := s.read searchResult.table searchResult.idx
  let type := mmuType entry
  -- the mask of a page entry has the bit of a block entry too
  if type &&& mmuPageEntry ≠ 0 then
    (setKernelSpace (mmuGetAddressFromPageEntry entry + va % mmuPageSize), s)
  else if type &&& mmuBlockEntry ≠ 0 then
    (setKernelSpace (mmuGetAddressFromBlockEntry entry searchResult.level +
      va % mmuSizeOfLevelRegion searchResult.level), s)
  else (null, s)

/-! ## Mapping -/

/-- `mmu_create_memory_entry`. -/
abbrev MmuCreateMemoryEntry (A : Type) :=
  Mmu A → (table idx level address memoryType : Nat) → Mmu A

/-- The parameters of `mmu_map_units` that are the same for all units. -/
structure UnitKind (A : Type) where
  memoryType : Nat
  destinationLevel : Nat
  createMemoryEntry : MmuCreateMemoryEntry A
  getPhysSpace : GetPhysSpace A

namespace UnitKind

variable (kind : UnitKind A)

def unitSize : Nat := mmuSizeOfLevelRegion kind.destinationLevel

def pagesForUnit : Nat := u32 (kind.unitSize / mmuPageSize)

/-- A block is requested with its own size as alignment. -/
def request (virtAddr : Nat) : MmuPhysSpaceRequest :=
  { virtAddr, pageCount := kind.pagesForUnit, align := kind.pagesForUnit }

end UnitKind

variable (kind : UnitKind A)

/-- The loop that gives every empty slot of a level 3 table a page. -/
def fillSubtable (s : Mmu A) (table virtAddr : Nat) : Mmu A :=
  (forRange
    (fun l3Idx (virtAddr, s) =>
      let l3Entry := s.read table l3Idx
      let s :=
        if mmuType l3Entry = mmuEmptyEntry then
          let (addr, s) := s.getPhysSpace kind.getPhysSpace { virtAddr, pageCount := 1, align := 1 }
          s.mmuCreatePageEntry table l3Idx 3 addr kind.memoryType
        else if !mmuIsSameMemoryType l3Entry kind.memoryType then
          s.mmuOverrideMemoryType table l3Idx kind.memoryType
        else s
      (u64 (virtAddr + mmuPageSize), s))
    (mmuNumberOfLevelEntries 3) 0 (virtAddr, s)).2

/-- One unit of a batch, the one in slot `unitNumber`. -/
def mapUnit (tableData : MmuEntryInfo) (unitNumber requestedAddr : Nat) (s : Mmu A) : Mmu A :=
  let entry := s.read tableData.table unitNumber
  if entry ≠ mmuEmptyEntry then
    if tableData.level ≠ 3 ∧ mmuType entry = mmuTableEntry then
      -- the subtable is that of the batch's first slot, not of `unitNumber`
      let (subtable, s) := s.mmuGetSubtable tableData.table tableData.idx tableData.level
      s.fillSubtable kind subtable requestedAddr
    else if !mmuIsSameMemoryType entry kind.memoryType then
      s.mmuOverrideMemoryType tableData.table unitNumber kind.memoryType
    else s
  else
    let (addr, s) := s.getPhysSpace kind.getPhysSpace (kind.request requestedAddr)
    kind.createMemoryEntry s tableData.table unitNumber kind.destinationLevel addr kind.memoryType

/-- One round of the loop over a batch, on `requested_addr` and the state. -/
def batchRound (tableData : MmuEntryInfo) (unitNumber : Nat) (c : Nat × Mmu A) : Nat × Mmu A :=
  (u64 (c.1 + kind.unitSize), c.2.mapUnit kind tableData unitNumber c.1)

/-- The units of a batch: those of one table. -/
def mapBatch (tableData : MmuEntryInfo) (unitCount requestedAddr : Nat) (s : Mmu A) : Mmu A :=
  (forRange (batchRound kind tableData) unitCount tableData.idx (requestedAddr, s)).2

/-- The variables of the outer loop in `mmu_map_units`. -/
structure MapCursor (A : Type) where
  count : Nat
  offset : Nat
  mmu : Mmu A

def MapCursor.active (c : MapCursor A) : Bool := decide (0 < c.count)

def mapRound (table level address : Nat) (c : MapCursor A) : MapCursor A :=
  let (tableData, s) :=
    c.mmu.mmuTraverseAndAllocTables pages table level (u64 (address + c.offset))
      kind.destinationLevel
  let unitCount :=
    u32 (min (sub64 (mmuNumberOfLevelEntries kind.destinationLevel) tableData.idx) c.count)
  { mmu := s.mapBatch kind tableData unitCount (u64 (address + c.offset))
    offset := u64 (c.offset + unitCount * kind.unitSize)
    count := sub32 c.count unitCount }

/-- Every round maps at least one unit, so `count` rounds are enough. -/
def mmuMapUnits (s : Mmu A) (table level address count : Nat) : Mmu A :=
  (loopWhile MapCursor.active (mapRound pages kind table level address) count ⟨count, 0, s⟩).mmu

/-- The two kinds of units `memory_mmu_insert` maps. -/
def pageUnits (memoryType : Nat) (getPhysSpace : GetPhysSpace A) : UnitKind A :=
  { memoryType, destinationLevel := 3, createMemoryEntry := mmuCreatePageEntry, getPhysSpace }

def blockUnits (memoryType : Nat) (getPhysSpace : GetPhysSpace A) : UnitKind A :=
  { memoryType, destinationLevel := 2, createMemoryEntry := mmuCreateBlockEntry, getPhysSpace }

def memoryMmuInsert (s : Mmu A) (table level address size memoryType : Nat)
    (getPhysSpace : GetPhysSpace A) : Mmu A :=
  let mapPages (s : Mmu A) := s.mmuMapUnits pages (pageUnits memoryType getPhysSpace) table level
  let mapBlocks (s : Mmu A) := s.mmuMapUnits pages (blockUnits memoryType getPhysSpace) table level
  let blockSize := mmuSizeOfLevelRegion 2
  let blockAddress := alignUp64 address blockSize
  if u64 (sub64 blockAddress address + blockSize) ≤ size then
    let leading := u32 (min size (sub64 blockAddress address))
    let (s, offset) :=
      if 0 < leading then (mapPages s address leading, u64 (leading * mmuPageSize)) else (s, 0)
    let blocks := u32 (sub64 size offset / blockSize)
    let (s, offset) :=
      if 0 < blocks then
        (mapBlocks s (u64 (address + offset)) blocks, u64 (offset + blocks * blockSize))
      else (s, offset)
    let trailing := u32 (sub64 size offset / mmuPageSize)
    if 0 < trailing then mapPages s (u64 (address + offset)) trailing else s
  else mapPages s address (u32 (size / mmuPageSize))

/-! ## Destroying -/

def deallocPages (s : Mmu A) (addr number : Nat) : Mmu A :=
  { s with heap := pages.pagesDealloc s.heap addr number }

def mmuDestroyPageEntry (s : Mmu A) (entry : Nat) : Mmu A :=
  s.deallocPages pages (mmuGetAddressFromPageEntry entry) 1

def mmuDestroyBlockEntry (s : Mmu A) (entry level : Nat) : Mmu A :=
  s.deallocPages pages (mmuGetAddressFromBlockEntry entry level)
    (u32 (mmuSizeOfLevelRegion level / mmuPageSize))

def mmuDeallocTable (s : Mmu A) (table : Nat) : Mmu A := s.deallocPages pages table 1

/-- Why the destruction of an entry does not come to its end. -/
inductive Halt
  /-- A table is read past its last entry, or `table_stack` is used past its last slot. -/
  | outOfBounds
  | outOfRounds
deriving DecidableEq

def tableStackSize : Nat := 4

/-- `table_stack` up to `table_stack_depth`, the current entry first. -/
structure DestroyCursor (A : Type) where
  tableStack : List MmuEntryInfo
  mmu : Mmu A

/-- What a round does to the entry of the table on top of the stack. -/
def destroySlot (top : MmuEntryInfo) (rest : List MmuEntryInfo) (s : Mmu A) :
    Except Halt (DestroyCursor A) :=
  if mmuNumberOfLevelEntries top.level ≤ top.idx then .error .outOfBounds
  else
    let entry := s.read top.table top.idx
    let next := { top with idx := top.idx + 1 }
    if !mmuEntryValid entry then .ok ⟨next :: rest, s⟩
    else if mmuEntryDescriptor entry then
      if top.level = 3 then .ok ⟨next :: rest, s.mmuDestroyPageEntry pages entry⟩
      else
        let (subtable, s) := s.mmuGetSubtable top.table top.idx top.level
        if tableStackSize ≤ rest.length + 1 then .error .outOfBounds
        else .ok ⟨{ table := subtable, idx := 0, level := top.level + 1 } :: next :: rest, s⟩
    else .ok ⟨next :: rest, s.mmuDestroyBlockEntry pages entry top.level⟩

/-- The end of a round: a table whose entries are all done is given back. -/
def leaveTable (c : DestroyCursor A) : DestroyCursor A :=
  match c.tableStack with
  | [] => c
  | top :: rest =>
    if top.idx = mmuNumberOfLevelEntries top.level then
      { tableStack := rest, mmu := c.mmu.mmuDeallocTable pages top.table }
    else c

/-- The loop of `mmu_destroy_entry`, for at most so many rounds. -/
def destroyLoop : Nat → DestroyCursor A → Except Halt (Mmu A)
  | rounds, c =>
    match c.tableStack, rounds with
    | [], _ => .ok c.mmu
    | _ :: _, 0 => .error .outOfRounds
    | top :: rest, rounds + 1 => do
      let c ← destroySlot pages top rest c.mmu
      destroyLoop rounds (leaveTable pages c)

variable (rounds : Nat)

def mmuDestroyEntry (s : Mmu A) (table idx level : Nat) : Except Halt (Mmu A) :=
  let entry := s.read table idx
  if level = 3 then .ok ((s.mmuDestroyPageEntry pages entry).write table idx mmuEmptyEntry)
  else if mmuAreBlockEntriesSupported level ∧ mmuType entry = mmuBlockEntry then
    .ok ((s.mmuDestroyBlockEntry pages entry level).write table idx mmuEmptyEntry)
  else do
    let (subtable, s) := s.mmuGetSubtable table idx level
    let s ← destroyLoop pages rounds ⟨[{ table := subtable, idx := 0, level := level + 1 }], s⟩
    return s.write table idx mmuEmptyEntry

def memoryMmuDestroyTable (s : Mmu A) (level0Table : Nat) : Except Halt (Mmu A) := do
  let s ← (List.range (mmuNumberOfLevelEntries 0)).foldlM
    (fun s idx =>
      if s.read level0Table idx ≠ mmuEmptyEntry then s.mmuDestroyEntry pages rounds level0Table idx 0
      else .ok s) s
  return s.deallocPages pages level0Table 1

end Mmu

end PiVOS
