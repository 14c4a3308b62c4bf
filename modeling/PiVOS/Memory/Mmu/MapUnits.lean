-- SUMMARY: What `mmu_map_units` does to a tree: one leaf for every unit of a range without splits.
import PiVOS.Memory.Mmu.Descend

/-!
# Mapping units

A range of units is open when no leaf is on the way to it, no table stands in
place of a unit, and units that are mapped already have the memory type asked
for. Over an open range every unit gets a leaf with what the callback granted for
it, unless it had one.
-/

namespace PiVOS
namespace Mmu

variable {A : Type}

/-! ## Kinds of units -/

namespace UnitKind

/-- The descriptor of a unit with its memory at `addr`. -/
def entry (kind : UnitKind A) (addr : Nat) : Nat :=
  if kind.destinationLevel = 3 then mmuPageEntryBits addr kind.memoryType
  else mmuBlockEntryBits kind.destinationLevel addr kind.memoryType

/-- A destination level with the function that belongs to it. -/
structure Regular (kind : UnitKind A) : Prop where
  level : kind.destinationLevel = 2 ∨ kind.destinationLevel = 3
  create : ∀ s table idx addr, kind.createMemoryEntry s table idx kind.destinationLevel addr
    kind.memoryType = s.write table idx (kind.entry addr)

theorem pageUnits_regular (memoryType : Nat) (getPhysSpace : GetPhysSpace A) :
    (pageUnits memoryType getPhysSpace).Regular := by
  refine ⟨.inr rfl, fun s table idx addr => ?_⟩
  exact congrArg (fun s : Mmu A => s.write table idx _) (assert_true s)

theorem blockUnits_regular (memoryType : Nat) (getPhysSpace : GetPhysSpace A) :
    (blockUnits memoryType getPhysSpace).Regular := by
  refine ⟨.inl rfl, fun s table idx addr => ?_⟩
  exact congrArg (fun s : Mmu A => s.write table idx _) (assert_true s)

variable {kind : UnitKind A}

theorem Regular.le (h : kind.Regular) : kind.destinationLevel ≤ 3 := by
  rcases h.level with h | h <;> omega

theorem Regular.unitSize (h : kind.Regular) : kind.unitSize = regionSize kind.destinationLevel :=
  regionSize_eq h.le

theorem entry_block (h : kind.destinationLevel = 2) (addr : Nat) : kind.entry addr =
    1 + (kind.memoryType % 8 + 272) * 4 + addr / 2 ^ 21 % 2 ^ 27 * 2 ^ 21 := by
  rw [entry, if_neg (by omega), h, mmuBlockEntryBits_two]

theorem entry_page (h : kind.destinationLevel = 3) (addr : Nat) : kind.entry addr =
    3 + (kind.memoryType % 8 + 272) * 4 + addr / 2 ^ 12 % 2 ^ 36 * 2 ^ 12 := by
  rw [entry, if_pos h, mmuPageEntryBits_eq]

theorem Regular.isLeafEntry (h : kind.Regular) (addr : Nat) :
    IsLeafEntry kind.destinationLevel (kind.entry addr) := by
  rcases h.level with hlevel | hlevel
  · refine .inl ⟨.inr hlevel, ?_⟩
    rw [entry_block hlevel]
    omega
  · refine .inr ⟨hlevel, ?_⟩
    rw [entry_page hlevel]
    omega

/-- A mapped unit translates to the memory it was given. -/
theorem Regular.translate_entry (h : kind.Regular) {addr : Nat}
    (haligned : addr % kind.unitSize = 0) (haddr : addr < 2 ^ 48) (htype : kind.memoryType < 8)
    (va : Nat) : translate kind.destinationLevel (kind.entry addr) va =
      { pa := addr + va % kind.unitSize, attrIndx := kind.memoryType } := by
  have houtput : outputAddress kind.destinationLevel (kind.entry addr) = addr ∧
      kind.entry addr / 2 ^ 2 % 2 ^ 3 = kind.memoryType := by
    rw [h.unitSize] at haligned
    rcases h.level with hlevel | hlevel
    · rw [entry_block hlevel, hlevel]
      rw [hlevel] at haligned
      simp only [outputAddress, regionSize] at haligned ⊢
      omega
    · rw [entry_page hlevel, hlevel]
      rw [hlevel] at haligned
      simp only [outputAddress, regionSize] at haligned ⊢
      omega
  rw [translate, houtput.1, houtput.2, h.unitSize]

end UnitKind

variable {pages : PageHeap A} {kind : UnitKind A}

/-! ## Steps -/

/-- A round of the loop over a table of pages. -/
def fillRound (kind : UnitKind A) (table l3Idx : Nat) (c : Nat × Mmu A) : Nat × Mmu A :=
  (u64 (c.1 + mmuPageSize),
    if mmuType (c.2.read table l3Idx) = mmuEmptyEntry then
      let (addr, s) := c.2.getPhysSpace kind.getPhysSpace { virtAddr := c.1, pageCount := 1, align := 1 }
      s.mmuCreatePageEntry table l3Idx 3 addr kind.memoryType
    else if !mmuIsSameMemoryType (c.2.read table l3Idx) kind.memoryType then
      c.2.mmuOverrideMemoryType table l3Idx kind.memoryType
    else c.2)

theorem fillSubtable_eq (s : Mmu A) (table virtAddr : Nat) : s.fillSubtable kind table virtAddr =
    (forRange (fillRound kind table) (mmuNumberOfLevelEntries 3) 0 (virtAddr, s)).2 := rfl

theorem fillRound_steps (table l3Idx : Nat) (c : Nat × Mmu A) :
    Steps pages kind.getPhysSpace c.2 (fillRound kind table l3Idx c).2 := by
  have hgrant : Steps pages kind.getPhysSpace c.2
      (c.2.getPhysSpace kind.getPhysSpace { virtAddr := c.1, pageCount := 1, align := 1 }).2 :=
    .single (.getPhysSpace c.2 _)
  simp only [fillRound]
  split
  · exact hgrant.trans (createEntry_steps _ _ _ _ _ _).2
  · split
    · exact .single (.write _ _ _ _)
    · exact .refl

theorem fillSubtable_steps (s : Mmu A) (table virtAddr : Nat) :
    Steps pages kind.getPhysSpace s (s.fillSubtable kind table virtAddr) := by
  rw [fillSubtable_eq]
  exact Steps.forRange Prod.snd (fun l3Idx c => fillRound_steps _ l3Idx c) _ _ (virtAddr, s)

theorem mapUnit_steps (hkind : kind.Regular) (s : Mmu A) (tableData : MmuEntryInfo)
    (unitNumber requestedAddr : Nat) :
    Steps pages kind.getPhysSpace s (s.mapUnit kind tableData unitNumber requestedAddr) := by
  simp only [mapUnit, hkind.create]
  split
  · split
    · exact (getSubtable_steps _ _ _ _).trans (fillSubtable_steps _ _ _)
    · split
      · exact .single (.write _ _ _ _)
      · exact .refl
  · exact (Relation.ReflTransGen.single (.getPhysSpace s _)).tail (.write _ _ _ _)

theorem batch_recordedIn (hkind : kind.Regular) (tableData : MmuEntryInfo) (count first : Nat)
    (c : Nat × Mmu A) : RecordedIn c.2 (forRange (batchRound kind tableData) count first c).2 := by
  -- a batch takes no tables, so any allocator will do
  have hsteps : Steps ⟨fun heap _ _ => (0, heap), fun heap _ _ => heap⟩ kind.getPhysSpace c.2
      (forRange (batchRound kind tableData) count first c).2 :=
    Steps.forRange Prod.snd (fun unitNumber c => mapUnit_steps hkind c.2 tableData unitNumber c.1)
      count first c
  exact hsteps.recordedIn

theorem mapBatch_steps (hkind : kind.Regular) (s : Mmu A) (tableData : MmuEntryInfo)
    (unitCount requestedAddr : Nat) :
    Steps pages kind.getPhysSpace s (s.mapBatch kind tableData unitCount requestedAddr) := by
  exact Steps.forRange Prod.snd (fun unitNumber c => mapUnit_steps hkind c.2 tableData unitNumber c.1)
    unitCount tableData.idx (requestedAddr, s)

theorem mapRound_steps (hkind : kind.Regular) (table level address : Nat) (c : MapCursor A) :
    Steps pages kind.getPhysSpace c.mmu (mapRound pages kind table level address c).mmu :=
  (traverse_steps _ _ _ _ _).trans (mapBatch_steps hkind _ _ _ _)

theorem mapLoop_steps (hkind : kind.Regular) (table level address n : Nat) (c : MapCursor A) :
    Steps pages kind.getPhysSpace c.mmu
      (loopWhile MapCursor.active (mapRound pages kind table level address) n c).mmu := by
  refine Loop.invariant (I := fun c' : MapCursor A => Steps pages kind.getPhysSpace c.mmu c'.mmu) ?_ .refl n
  intro c' hc' _
  exact hc'.trans (mapRound_steps hkind _ _ _ c')

theorem mapUnits_steps (hkind : kind.Regular) (s : Mmu A) (table level address count : Nat) :
    Steps pages kind.getPhysSpace s (s.mmuMapUnits pages kind table level address count) :=
  mapLoop_steps hkind table level address count ⟨count, 0, s⟩

/-- Filling a level 3 table touches no other memory. -/
theorem fillSubtable_mem {a : Nat} (ha : IsTableAddress a) (s : Mmu A) (virtAddr w : Nat)
    (hw : ¬InTable a w) : (s.fillSubtable kind (setKernelSpace a) virtAddr).mem w = s.mem w := by
  simp only [fillSubtable]
  have hne : ∀ i, i < 512 → w ≠ a / 8 + i := by
    rintro i hi rfl
    exact hw (inTable_slot hi)
  refine Loop.forRange_invariant (I := fun _ (c : Nat × Mmu A) => c.2.mem w = s.mem w)
    (fun i c _ hi h => ?_) rfl
  have hi' : i < 512 := by rwa [Nat.zero_add] at hi
  simp only
  split
  · rw [mmuCreatePageEntry, write_mem ha, Function.update_of_ne (hne i hi')]
    exact h
  · split
    · rw [mmuOverrideMemoryType, write_mem ha, Function.update_of_ne (hne i hi')]
      exact h
    · exact h

/-! ## The number of tables -/

theorem fillSubtable_tables (s : Mmu A) (table virtAddr : Nat) :
    (s.fillSubtable kind table virtAddr).tables = s.tables := by
  simp only [fillSubtable]
  refine Loop.forRange_invariant (I := fun _ (c : Nat × Mmu A) => c.2.tables = s.tables)
    (fun i c _ _ h => ?_) rfl
  simp only
  split
  · exact h
  · split
    · exact h
    · exact h

theorem mapUnit_tables (hkind : kind.Regular) (s : Mmu A) (tableData : MmuEntryInfo)
    (unitNumber requestedAddr : Nat) :
    (s.mapUnit kind tableData unitNumber requestedAddr).tables = s.tables := by
  simp only [mapUnit, hkind.create]
  split
  · split
    · exact fillSubtable_tables _ _ _
    · split
      · rfl
      · rfl
  · rfl

theorem mapBatch_tables (hkind : kind.Regular) (s : Mmu A) (tableData : MmuEntryInfo)
    (unitCount requestedAddr : Nat) :
    (s.mapBatch kind tableData unitCount requestedAddr).tables = s.tables := by
  refine Loop.forRange_invariant (I := fun _ (c : Nat × Mmu A) => c.2.tables = s.tables)
    (fun i c _ _ h => ?_) rfl
  exact (mapUnit_tables hkind _ _ _ _).trans h

theorem mapRound_tables_length (hkind : kind.Regular) (pages : PageHeap A) (table address : Nat)
    (c : MapCursor A) : (mapRound pages kind table 0 address c).mmu.tables.length ≤
      c.mmu.tables.length + 3 := by
  have hdescent := descent_tables_length pages kind.destinationLevel 0
    ⟨table, u64 (address + c.offset), c.mmu⟩
  have hlevel := hkind.le
  rw [mapRound]
  simp only [mapBatch_tables hkind, mmuTraverseAndAllocTables, Nat.sub_zero]
  exact Nat.le_trans hdescent (Nat.add_le_add_left hlevel _)

/-- Not more than three tables for each unit. -/
theorem mapUnits_tables_length (hkind : kind.Regular) (pages : PageHeap A) (s : Mmu A)
    (table address count : Nat) : (s.mmuMapUnits pages kind table 0 address count).tables.length ≤
      s.tables.length + count * 3 := by
  suffices h : ∀ (n : Nat) (c : MapCursor A),
      (loopWhile MapCursor.active (mapRound pages kind table 0 address) n c).mmu.tables.length ≤
        c.mmu.tables.length + n * 3 from h count ⟨count, 0, s⟩
  intro n
  induction n with
  | zero => exact fun c => Nat.le_refl _
  | succ n ih =>
    intro c
    rw [loopWhile]
    split
    · have hround := mapRound_tables_length hkind pages table address c
      have hrest := ih (mapRound pages kind table 0 address c)
      omega
    · exact Nat.le_add_right _ _

theorem mapBatch_one (s : Mmu A) (tableData : MmuEntryInfo) (requestedAddr : Nat) :
    s.mapBatch kind tableData 1 requestedAddr = s.mapUnit kind tableData tableData.idx requestedAddr :=
  rfl

theorem mapUnits_one (pages : PageHeap A) (kind : UnitKind A) (s : Mmu A) (table level address : Nat) :
    s.mmuMapUnits pages kind table level address 1 =
      (mapRound pages kind table level address ⟨1, 0, s⟩).mmu := by
  have hactive : MapCursor.active (⟨1, 0, s⟩ : MapCursor A) = true := rfl
  rw [mmuMapUnits, Loop.loopWhile_succ_of_true _ hactive, Loop.loopWhile_zero]

/-! ## One unit -/

namespace UnitKind

/-- Nothing is in the way of unit `m` in its own table: no table in its place,
and no other memory type. -/
def Vacant (kind : UnitKind A) (t : MmuTree) (m : Nat) : Prop :=
  t.node (kind.destinationLevel + 1) m = none ∧
    ∀ e, t.leaf kind.destinationLevel m = some e → mmuAttrIndx e = kind.memoryType

/-- Nothing is in the way of unit `m` on all levels. -/
def Open (kind : UnitKind A) (t : MmuTree) (m : Nat) : Prop :=
  (∀ l < kind.destinationLevel, t.leaf l (slotNumber l (m * kind.unitSize)) = none) ∧
    kind.Vacant t m

/-- The leaf `e` of a unit from `lo` up to `hi` holds what the callback granted for the unit. -/
def Fills (kind : UnitKind A) (fin : Mmu A) (lo hi : Nat) (level m e : Nat) : Prop :=
  level = kind.destinationLevel ∧ lo ≤ m ∧ m < hi ∧
    ∃ addr, e = kind.entry addr ∧ (kind.request (m * kind.unitSize), addr) ∈ fin.grants ∧
      ∃ heap, (kind.getPhysSpace (kind.request (m * kind.unitSize)) heap).1 = addr

/-- The tables the units from `lo` up to `hi` hang from. -/
def Hangs (kind : UnitKind A) (lo hi : Nat) (level n : Nat) : Prop :=
  1 ≤ level ∧ level ≤ kind.destinationLevel ∧
    ∃ m, lo ≤ m ∧ m < hi ∧ n = slotNumber level (m * kind.unitSize) / 512

theorem Fills.mono {fin : Mmu A} {lo hi lo' hi' level m e : Nat}
    (h : kind.Fills fin lo hi level m e) (hlo : lo' ≤ lo) (hhi : hi ≤ hi') :
    kind.Fills fin lo' hi' level m e :=
  ⟨h.1, Nat.le_trans hlo h.2.1, Nat.lt_of_lt_of_le h.2.2.1 hhi, h.2.2.2⟩

theorem Hangs.mono {lo hi lo' hi' level n : Nat} (h : kind.Hangs lo hi level n) (hlo : lo' ≤ lo)
    (hhi : hi ≤ hi') : kind.Hangs lo' hi' level n := by
  obtain ⟨h₁, h₂, m, hm₁, hm₂, hn⟩ := h
  exact ⟨h₁, h₂, m, by omega, by omega, hn⟩

theorem Vacant.grown {s s' fin : Mmu A} {t t' : MmuTree} {lo hi m : Nat} {way : Nat → Nat → Prop}
    (h : kind.Vacant t m) (hgrown : Grown s t s' t' way (kind.Fills fin lo hi))
    (hway : ¬way (kind.destinationLevel + 1) m) (hm : ¬(lo ≤ m ∧ m < hi)) : kind.Vacant t' m := by
  refine ⟨hgrown.node_none h.1 hway, fun e he => ?_⟩
  rcases hgrown.leaf_new he with hold | hnew
  · exact h.2 e hold
  · exact absurd ⟨hnew.2.1, hnew.2.2.1⟩ hm

theorem Open.grown {s s' fin : Mmu A} {t t' : MmuTree} {lo hi m : Nat} {way : Nat → Nat → Prop}
    (h : kind.Open t m) (hgrown : Grown s t s' t' way (kind.Fills fin lo hi))
    (hway : ¬way (kind.destinationLevel + 1) m) (hm : ¬(lo ≤ m ∧ m < hi)) : kind.Open t' m :=
  ⟨fun l hl => hgrown.leaf_none (h.1 l hl) fun _ hfill => Nat.ne_of_lt hl hfill.1,
    h.2.grown hgrown hway hm⟩

end UnitKind

theorem mapUnit_of_kept {s : Mmu A} {tableData : MmuEntryInfo} {unitNumber requestedAddr e : Nat}
    (hread : s.read tableData.table unitNumber = e) (hne : e ≠ 0)
    (hleaf : ¬(tableData.level ≠ 3 ∧ e % 4 = 3)) (htype : mmuAttrIndx e = kind.memoryType) :
    s.mapUnit kind tableData unitNumber requestedAddr = s := by
  have hsame : mmuIsSameMemoryType e kind.memoryType = true := decide_eq_true htype
  have hne' : e ≠ mmuEmptyEntry := hne
  have hleaf' : ¬(tableData.level ≠ 3 ∧ mmuType e = mmuTableEntry) := by
    rwa [mmuType_eq]
  simp only [mapUnit, hread, hne', hleaf', hsame, ne_eq, not_false_eq_true, if_true, if_false,
    Bool.not_true, Bool.false_eq_true]

/-- The first unit of a batch, in place of a table: the table is filled. -/
theorem mapUnit_of_table {s : Mmu A} {tableData : MmuEntryInfo} {requestedAddr b : Nat}
    (hlevel : tableData.level ≠ 3) (hb : IsSubtableAddress b)
    (hread : s.read tableData.table tableData.idx = mmuTableEntryBits (setKernelSpace b)) :
    s.mapUnit kind tableData tableData.idx requestedAddr =
      s.fillSubtable kind (setKernelSpace b) requestedAddr := by
  have htype : mmuType (mmuTableEntryBits (setKernelSpace b)) = mmuTableEntry :=
    (mmuType_eq _).trans (tableEntry_type _)
  have hne : mmuTableEntryBits (setKernelSpace b) ≠ mmuEmptyEntry := by
    intro heq
    have hmod := tableEntry_type (setKernelSpace b)
    rw [heq] at hmod
    exact absurd hmod (by decide)
  have hsubtable := getSubtable_eq hlevel hb hread
  simp only [mapUnit, hread, hne, hlevel, htype, hsubtable, ne_eq, not_false_eq_true, and_self,
    if_true]

/-- A unit in an empty slot: the callback is asked, its answer is stored. -/
def storeUnit (kind : UnitKind A) (s : Mmu A) (table unitNumber requestedAddr : Nat) : Mmu A :=
  let (addr, s) := s.getPhysSpace kind.getPhysSpace (kind.request requestedAddr)
  s.write table unitNumber (kind.entry addr)

theorem mapUnit_of_empty (hkind : kind.Regular) {s : Mmu A} {tableData : MmuEntryInfo}
    {unitNumber requestedAddr : Nat} (hread : s.read tableData.table unitNumber = 0) :
    s.mapUnit kind tableData unitNumber requestedAddr =
      s.storeUnit kind tableData.table unitNumber requestedAddr := by
  simp only [mapUnit, hread, hkind.create, mmuEmptyEntry, ne_eq, not_true_eq_false, if_false, storeUnit]

/-- One unit gets its leaf, or has it already. -/
theorem mapUnit_spec (hkind : kind.Regular) {fin s : Mmu A} {root n a i : Nat} {t : MmuTree}
    {tableData : MmuEntryInfo} (h : Holds fin root s t)
    (hnode : t.node kind.destinationLevel n = some a) (hi : i < 512)
    (hdata : tableData.table = setKernelSpace a ∧ tableData.level = kind.destinationLevel)
    (hvacant : kind.Vacant t (n * 512 + i))
    (hfin : (s.mapUnit kind tableData i ((n * 512 + i) * kind.unitSize)).grants <:+ fin.grants) :
    ∃ t', Holds fin root (s.mapUnit kind tableData i ((n * 512 + i) * kind.unitSize)) t' ∧
      Grown s t (s.mapUnit kind tableData i ((n * 512 + i) * kind.unitSize)) t' (fun _ _ => False)
        (kind.Fills fin (n * 512 + i) (n * 512 + i + 1)) ∧
      (t'.leaf kind.destinationLevel (n * 512 + i)).isSome := by
  obtain ⟨htable, hlevel⟩ := hdata
  have ha := h.tree.address hnode
  have hread : s.read tableData.table i = s.mem (a / 8 + i) := by rw [htable, read_eq ha]
  cases hleaf : t.leaf kind.destinationLevel (n * 512 + i) with
  | some e =>
    have hentry := h.tree.leaf_entry hleaf
    have hword := h.tree.word_of_leaf hnode hi hleaf
    have hne : e ≠ 0 := by
      rintro rfl
      exact absurd hentry.valid (by decide)
    have hnotTable : ¬(tableData.level ≠ 3 ∧ e % 4 = 3) := by
      rintro ⟨h₁, h₂⟩
      rcases hentry with ⟨-, hmod⟩ | ⟨h₃, -⟩ <;> omega
    rw [mapUnit_of_kept (hread.trans hword) hne hnotTable (hvacant.2 e hleaf)]
    exact ⟨t, h, .refl _ _, by rw [hleaf]; rfl⟩
  | none =>
    have hword := h.tree.word_of_empty hnode hi hleaf hvacant.1
    rw [mapUnit_of_empty hkind (hread.trans hword)] at hfin ⊢
    generalize hvirt : (n * 512 + i) * kind.unitSize = virt at hfin ⊢
    let addr := (kind.getPhysSpace (kind.request virt) s.heap).1
    have hmem : (s.storeUnit kind tableData.table i virt).mem =
        Function.update s.mem (a / 8 + i) (kind.entry addr) := by
      rw [htable]
      exact write_mem ha _ i _
    obtain ⟨h', hgrown⟩ := h.setLeaf hnode hi hleaf hvacant.1 (hkind.isLeafEntry addr) hmem rfl
    refine ⟨_, h', hgrown.trans (.refl _ _) id id ?_ id, ?_⟩
    · rintro level m e ⟨rfl, rfl, rfl⟩
      refine ⟨rfl, Nat.le_refl _, Nat.lt_succ_self _, addr, rfl, ?_, s.heap, ?_⟩
      · rw [hvirt]
        exact hfin.subset (List.mem_cons_self ..)
      · rw [hvirt]
    · rw [Radix.setLeaf_leaf_self]
      rfl

/-! ## One batch -/

theorem batch_spec (hkind : kind.Regular) {fin : Mmu A} {root n a : Nat} {count first : Nat}
    {c : Nat × Mmu A} {t : MmuTree} {tableData : MmuEntryInfo} (h : Holds fin root c.2 t)
    (hnode : t.node kind.destinationLevel n = some a) (hcount : first + count ≤ 512)
    (hdata : tableData.table = setKernelSpace a ∧ tableData.level = kind.destinationLevel)
    (hvirt : c.1 = (n * 512 + first) * kind.unitSize)
    (hspace : (n * 512 + first + count) * kind.unitSize ≤ 2 ^ 48)
    (hvacant : ∀ m, n * 512 + first ≤ m → m < n * 512 + first + count → kind.Vacant t m)
    (hfin : (forRange (batchRound kind tableData) count first c).2.grants <:+ fin.grants) :
    ∃ t', Holds fin root (forRange (batchRound kind tableData) count first c).2 t' ∧
      Grown c.2 t (forRange (batchRound kind tableData) count first c).2 t' (fun _ _ => False)
        (kind.Fills fin (n * 512 + first) (n * 512 + first + count)) ∧
      ∀ m, n * 512 + first ≤ m → m < n * 512 + first + count →
        (t'.leaf kind.destinationLevel m).isSome := by
  induction count generalizing first c t with
  | zero => exact ⟨t, h, .refl _ _, fun m hlo hhi => by omega⟩
  | succ count ih =>
    have hrest := batch_recordedIn hkind tableData count (first + 1) (batchRound kind tableData first c)
    obtain ⟨t₁, h₁, hgrown₁, hleaf₁⟩ := mapUnit_spec hkind h hnode (by omega : first < 512) hdata
      (hvacant _ (Nat.le_refl _) (by omega)) (hvirt ▸ hrest.grants.trans hfin)
    rw [← hvirt] at h₁ hgrown₁
    have hnext : (batchRound kind tableData first c).1 = (n * 512 + (first + 1)) * kind.unitSize := by
      have hle : (n * 512 + first + 1) * kind.unitSize ≤ (n * 512 + first + (count + 1)) * kind.unitSize :=
        Nat.mul_le_mul_right _ (by omega)
      have hsum : (n * 512 + first + 1) * kind.unitSize = c.1 + kind.unitSize := by
        rw [hvirt, Nat.succ_mul]
      rw [batchRound, u64_of_lt (by omega), ← Nat.add_assoc, hsum]
    obtain ⟨t₂, h₂, hgrown₂, hleaf₂⟩ := ih h₁ (hgrown₁.node_old hnode) (by omega) hnext
      (by rwa [show n * 512 + (first + 1) + count = n * 512 + first + (count + 1) by omega])
      (fun m hlo hhi => (hvacant m (by omega) (by omega)).grown hgrown₁ id (by omega)) hfin
    refine ⟨t₂, h₂, hgrown₁.trans hgrown₂ id id (·.mono (by omega) (by omega))
      (·.mono (by omega) (by omega)), fun m hlo hhi => ?_⟩
    rcases Nat.lt_or_eq_of_le hlo with hlt | rfl
    · exact hleaf₂ m (by omega) (by omega)
    · obtain ⟨e, he⟩ := Option.isSome_iff_exists.mp hleaf₁
      rw [hgrown₂.leaf_old he]
      rfl

/-! ## The loop over batches -/

theorem UnitKind.Regular.slotNumber_unit (h : kind.Regular) (m : Nat) :
    slotNumber kind.destinationLevel (m * kind.unitSize) = m := by
  rw [slotNumber, h.unitSize, Nat.mul_div_cancel _ (regionSize_pos _)]

/-- What a stretch of units of `mmu_map_units` achieves. -/
structure Maps (kind : UnitKind A) (fin : Mmu A) (root : Nat) (s : Mmu A) (t : MmuTree) (s' : Mmu A)
    (t' : MmuTree) (lo hi : Nat) : Prop where
  holds : Holds fin root s' t'
  grown : Grown s t s' t' (kind.Hangs lo hi) (kind.Fills fin lo hi)
  mapped : ∀ m, lo ≤ m → m < hi → (t'.leaf kind.destinationLevel m).isSome

theorem Maps.trans {fin s s₁ s₂ : Mmu A} {root lo mid hi : Nat} {t t₁ t₂ : MmuTree}
    (h₁ : Maps kind fin root s t s₁ t₁ lo mid) (h₂ : Maps kind fin root s₁ t₁ s₂ t₂ mid hi)
    (hlo : lo ≤ mid) (hhi : mid ≤ hi) : Maps kind fin root s t s₂ t₂ lo hi where
  holds := h₂.holds
  grown := h₁.grown.trans h₂.grown (·.mono (Nat.le_refl _) hhi) (·.mono hlo (Nat.le_refl _))
    (·.mono (Nat.le_refl _) hhi) (·.mono hlo (Nat.le_refl _))
  mapped m hmlo hmhi := by
    rcases Nat.lt_or_ge m mid with hlt | hge
    · obtain ⟨e, he⟩ := Option.isSome_iff_exists.mp (h₁.mapped m hmlo hlt)
      rw [h₂.grown.leaf_old he]
      rfl
    · exact h₂.mapped m hge hmhi

/-- One round maps the units up to the end of the range or of their table. -/
theorem mapRound_spec (hkind : kind.Regular) {fin : Mmu A} {root address m : Nat} {c : MapCursor A}
    {t : MmuTree} (h : Holds fin root c.mmu t) (hpos : 0 < c.count) (hcount : c.count < 2 ^ 32)
    (hoffset : address + c.offset = m * kind.unitSize)
    (hspace : (m + c.count) * kind.unitSize ≤ 2 ^ 48)
    (hopen : ∀ m', m ≤ m' → m' < m + c.count → kind.Open t m')
    (hfin : RecordedIn (mapRound pages kind (setKernelSpace root) 0 address c).mmu fin) :
    ∃ k t', 0 < k ∧ k ≤ c.count ∧
      (mapRound pages kind (setKernelSpace root) 0 address c).count = c.count - k ∧
      address + (mapRound pages kind (setKernelSpace root) 0 address c).offset =
        (m + k) * kind.unitSize ∧
      Maps kind fin root c.mmu t (mapRound pages kind (setKernelSpace root) 0 address c).mmu t'
        m (m + k) := by
  have hsize : 0 < kind.unitSize := hkind.unitSize ▸ regionSize_pos _
  have hm : m * kind.unitSize + kind.unitSize ≤ 2 ^ 48 := by
    rw [← Nat.succ_mul]
    exact Nat.le_trans (Nat.mul_le_mul_right _ (by omega)) hspace
  obtain ⟨k, hkmin⟩ : ∃ k, k = min (512 - m % 512) c.count := ⟨_, rfl⟩
  have hk : 0 < k ∧ k ≤ c.count ∧ m % 512 + k ≤ 512 := by omega
  have hspace' : (m + k) * kind.unitSize ≤ 2 ^ 48 :=
    Nat.le_trans (Nat.mul_le_mul_right _ (by omega)) hspace
  have hend : m * kind.unitSize + k * kind.unitSize = (m + k) * kind.unitSize :=
    (Nat.add_mul _ _ _).symm
  have hvirt : u64 (address + c.offset) = m * kind.unitSize := by
    rw [u64_of_lt (by omega), hoffset]
  have htraverse := fun hfin : (c.mmu.mmuTraverseAndAllocTables pages (setKernelSpace root) 0
      (m * kind.unitSize) kind.destinationLevel).2.tables <:+ fin.tables =>
    traverse_spec h (by omega : m * kind.unitSize < 2 ^ 48) hkind.le
      (fun l hl => (hopen m (Nat.le_refl _) (by omega)).1 l hl) hfin
  simp only [mapRound, hvirt] at hfin ⊢
  generalize c.mmu.mmuTraverseAndAllocTables pages (setKernelSpace root) 0 (m * kind.unitSize)
    kind.destinationLevel = r at htraverse hfin ⊢
  obtain ⟨tableData, s₁⟩ := r
  have hbatch := fun unitCount => (mapBatch_steps hkind s₁ tableData unitCount (m * kind.unitSize) :
    Steps pages _ _ _).recordedIn
  obtain ⟨t₁, a, h₁, hgrown₁, hnode, rfl⟩ := htraverse ((hbatch _).trans hfin).tables
  simp only [hkind.slotNumber_unit] at hnode hfin ⊢
  have hcount' : u32 (min (sub64 (mmuNumberOfLevelEntries kind.destinationLevel) (m % 512)) c.count) = k := by
    rw [mmuNumberOfLevelEntries, sub64_of_le (by omega), u32_of_lt (by omega), hkmin]
  rw [hcount'] at hfin ⊢
  have hfirst : m / 512 * 512 + m % 512 = m := Nat.div_add_mod' m 512
  have hvacant : ∀ m', m ≤ m' → m' < m + k → kind.Vacant t₁ m' := by
    intro m' hlo hhi
    have hgrown : Grown c.mmu t s₁ t₁ (OnWay (m * kind.unitSize) 0 kind.destinationLevel)
        (kind.Fills fin 0 0) := hgrown₁.trans (.refl _ _) id id False.elim id
    have hway : ¬OnWay (m * kind.unitSize) 0 kind.destinationLevel (kind.destinationLevel + 1) m' :=
      fun hway => by have := hway.2.1; omega
    exact ((hopen m' hlo (by omega)).grown hgrown hway (by omega)).2
  obtain ⟨t₂, h₂, hgrown₂, hleaf₂⟩ := batch_spec hkind (c := (m * kind.unitSize, s₁)) h₁ hnode
    hk.2.2 ⟨rfl, rfl⟩ (by rw [hfirst]) (by rw [hfirst]; exact hspace') (by rw [hfirst]; exact hvacant)
    hfin.grants
  rw [hfirst] at hgrown₂ hleaf₂
  have hgrown₁' : Grown c.mmu t s₁ t₁ (kind.Hangs m (m + k)) (kind.Fills fin m (m + k)) :=
    hgrown₁.trans (.refl _ _) (fun ⟨hlo, hhi, hn⟩ => ⟨hlo, by omega, m, Nat.le_refl _, by omega, hn⟩)
      id False.elim id
  refine ⟨k, t₂, hk.1, hk.2.1, sub32_of_le hk.2.1, ?_, h₂, hgrown₁'.trans hgrown₂ id False.elim id id,
    hleaf₂⟩
  rw [u64_of_lt (by omega)]
  omega

theorem mapLoop_spec (hkind : kind.Regular) {fin : Mmu A} {root address m n : Nat} {c : MapCursor A}
    {t : MmuTree} (h : Holds fin root c.mmu t) (hn : c.count ≤ n) (hcount : c.count < 2 ^ 32)
    (hoffset : address + c.offset = m * kind.unitSize)
    (hspace : (m + c.count) * kind.unitSize ≤ 2 ^ 48)
    (hopen : ∀ m', m ≤ m' → m' < m + c.count → kind.Open t m')
    (hfin : RecordedIn (loopWhile MapCursor.active
      (mapRound pages kind (setKernelSpace root) 0 address) n c).mmu fin) :
    ∃ t', Maps kind fin root c.mmu t (loopWhile MapCursor.active
      (mapRound pages kind (setKernelSpace root) 0 address) n c).mmu t' m (m + c.count) := by
  induction n generalizing c m t with
  | zero =>
    have hzero : c.count = 0 := by omega
    refine ⟨t, h, .refl _ _, fun m' hlo hhi => by omega⟩
  | succ n ih =>
    by_cases hpos : 0 < c.count
    · have htrue : c.active = true := decide_eq_true hpos
      rw [Loop.loopWhile_succ_of_true _ htrue] at hfin ⊢
      have hrest := (mapLoop_steps hkind (setKernelSpace root) 0 address n
        (mapRound pages kind (setKernelSpace root) 0 address c) : Steps pages _ _ _).recordedIn
      obtain ⟨k, t₁, hk, hkc, hcount₁, hoffset₁, hmaps₁⟩ := mapRound_spec hkind h hpos hcount hoffset
        hspace hopen (hrest.trans hfin)
      have hend : m + k + (c.count - k) = m + c.count := by omega
      obtain ⟨t₂, hmaps₂⟩ := ih hmaps₁.holds (by omega) (by omega) hoffset₁
        (by rw [hcount₁, hend]; exact hspace)
        (fun m' hlo hhi => (hopen m' (by omega) (by omega)).grown hmaps₁.grown
          (fun hway => by have := hway.2.1; omega) (by omega)) hfin
      rw [hcount₁, hend] at hmaps₂
      exact ⟨t₂, hmaps₁.trans hmaps₂ (by omega) (by omega)⟩
    · have hfalse : c.active = false := decide_eq_false hpos
      rw [Loop.loopWhile_of_false _ hfalse]
      refine ⟨t, h, .refl _ _, fun m' hlo hhi => by omega⟩

/-- `mmu_map_units` over an open range. -/
theorem mapUnits_spec (hkind : kind.Regular) {fin s : Mmu A} {root first count : Nat} {t : MmuTree}
    (h : Holds fin root s t) (hcount : count < 2 ^ 32)
    (hspace : (first + count) * kind.unitSize ≤ 2 ^ 48)
    (hopen : ∀ m, first ≤ m → m < first + count → kind.Open t m)
    (hfin : RecordedIn
      (s.mmuMapUnits pages kind (setKernelSpace root) 0 (first * kind.unitSize) count) fin) :
    ∃ t', Maps kind fin root s t
      (s.mmuMapUnits pages kind (setKernelSpace root) 0 (first * kind.unitSize) count) t'
      first (first + count) :=
  mapLoop_spec hkind (c := ⟨count, 0, s⟩) h (Nat.le_refl _) hcount rfl hspace hopen hfin

end Mmu
end PiVOS
