-- SUMMARY: What mapping blocks over partly mapped space does, and where it goes wrong.
import PiVOS.Memory.Mmu.Descriptors
import PiVOS.Memory.Mmu.Traverse

/-!
# Mapping blocks over mapped space

Every unit of a batch finds its slot empty, or a block, or a table of pages. Empty
slots get memory and descriptors that are there get the memory type. A table is
filled the same way, page by page, but the table that is filled is that of the
batch's first slot: the tables of the other units are left as they are, and the
assertion in `mmu_get_subtable` fails when the first slot holds no table.
-/

namespace PiVOS
namespace Mmu

variable {A : Type} {pages : PageHeap A} {kind : UnitKind A}

/-! ## Descriptors with another memory type -/

theorem mmuWithMemoryType_self {e memoryType : Nat} (h : mmuAttrIndx e = memoryType) :
    mmuWithMemoryType e memoryType = e := by
  subst h
  simp only [mmuWithMemoryType, mmuAttrIndx, bitField]
  omega

theorem isLeafEntry_withMemoryType {level e : Nat} (h : IsLeafEntry level e) (memoryType : Nat) :
    IsLeafEntry level (mmuWithMemoryType e memoryType) := by
  have hmod : mmuWithMemoryType e memoryType % 4 = e % 4 := by
    simp only [mmuWithMemoryType, mmuAttrIndx, bitField]
    omega
  unfold IsLeafEntry
  rwa [hmod]

theorem translate_withMemoryType {level e memoryType : Nat} (h : IsLeafEntry level e)
    (htype : memoryType < 8) (va : Nat) : translate level (mmuWithMemoryType e memoryType) va =
      { pa := (translate level e va).pa, attrIndx := memoryType } := by
  have hcases : level = 1 ∨ level = 2 ∨ level = 3 := by
    rcases h with ⟨h, -⟩ | ⟨h, -⟩ <;> omega
  rw [translate, translate, Translation.mk.injEq]
  rcases hcases with rfl | rfl | rfl
  · simp only [outputAddress, regionSize, mmuWithMemoryType, mmuAttrIndx, bitField]
    omega
  · simp only [outputAddress, regionSize, mmuWithMemoryType, mmuAttrIndx, bitField]
    omega
  · simp only [outputAddress, regionSize, mmuWithMemoryType, mmuAttrIndx, bitField]
    omega

/-! ## One slot -/

/-- The callback gave `addr` for the request after `s` and before `s'`. -/
def GrantedSince (s s' : Mmu A) (request : MmuPhysSpaceRequest) (addr : Nat) : Prop :=
  ∃ later earlier, s'.grants = later ++ (request, addr) :: (earlier ++ s.grants)

theorem GrantedSince.mono {s s' s₀ s₁ : Mmu A} {request : MmuPhysSpaceRequest} {addr : Nat}
    (h : GrantedSince s s' request addr) (h₀ : RecordedIn s₀ s) (h₁ : RecordedIn s' s₁) :
    GrantedSince s₀ s₁ request addr := by
  obtain ⟨later, earlier, hgrants⟩ := h
  obtain ⟨before, hbefore⟩ := h₀.grants
  obtain ⟨after, hafter⟩ := h₁.grants
  refine ⟨after ++ later, earlier ++ before, ?_⟩
  rw [← hafter, hgrants, ← hbefore]
  simp only [List.append_assoc]

/-- What mapping makes of the slot of unit `m`: a descriptor gets the memory type, an
empty slot the memory the callback gave from `s` to `s'`. -/
def UnitKind.Remade (kind : UnitKind A) (s s' : Mmu A) (m : Nat) (old new : Option Nat) : Prop :=
  (∃ e, old = some e ∧ new = some (mmuWithMemoryType e kind.memoryType)) ∨
    old = none ∧ ∃ addr, new = some (kind.entry addr) ∧
      GrantedSince s s' (kind.request (m * kind.unitSize)) addr ∧
      ∃ heap, (kind.getPhysSpace (kind.request (m * kind.unitSize)) heap).1 = addr

theorem UnitKind.Remade.mono {s s' s₀ s₁ : Mmu A} {m : Nat} {old new : Option Nat}
    (h : kind.Remade s s' m old new) (h₀ : RecordedIn s₀ s) (h₁ : RecordedIn s' s₁) :
    kind.Remade s₀ s₁ m old new := by
  rcases h with h | ⟨hold, addr, hnew, hgrant, hanswer⟩
  · exact .inl h
  · exact .inr ⟨hold, addr, hnew, hgrant.mono h₀ h₁, hanswer⟩

/-- What the code does to a slot that holds no table. -/
def remakeSlot (kind : UnitKind A) (s : Mmu A) (table idx virtAddr : Nat) : Mmu A :=
  if s.read table idx = mmuEmptyEntry then s.storeUnit kind table idx virtAddr
  else if !mmuIsSameMemoryType (s.read table idx) kind.memoryType then
    s.mmuOverrideMemoryType table idx kind.memoryType
  else s

/-- From `s` and `t` to `s'` and `t'` nothing but leaves changed, those of `level`
with numbers from `lo` up to `hi`. -/
structure Relaid (level lo hi : Nat) (s : Mmu A) (t : MmuTree) (s' : Mmu A) (t' : MmuTree) : Prop where
  trapped : s'.trapped = s.trapped
  tables : s'.tables = s.tables
  recorded : RecordedIn s s'
  node : t'.node = t.node
  leaf : ∀ {l x}, ¬(l = level ∧ lo ≤ x ∧ x < hi) → t'.leaf l x = t.leaf l x

theorem Relaid.refl (level lo hi : Nat) (s : Mmu A) (t : MmuTree) : Relaid level lo hi s t s t :=
  ⟨rfl, rfl, .refl s, rfl, fun _ => rfl⟩

theorem Relaid.trans {level lo mid hi : Nat} {s s₁ s₂ : Mmu A} {t t₁ t₂ : MmuTree}
    (h₁ : Relaid level lo mid s t s₁ t₁) (h₂ : Relaid level mid hi s₁ t₁ s₂ t₂) (hlo : lo ≤ mid)
    (hhi : mid ≤ hi) : Relaid level lo hi s t s₂ t₂ where
  trapped := h₂.trapped.trans h₁.trapped
  tables := h₂.tables.trans h₁.tables
  recorded := h₁.recorded.trans h₂.recorded
  node := h₂.node.trans h₁.node
  leaf h := (h₂.leaf (by omega)).trans (h₁.leaf (by omega))

theorem remakeSlot_spec {s : Mmu A} {root n a i : Nat} {t : MmuTree} (hkind : kind.Regular)
    (h : HoldsTree s.mem root t) (hnode : t.node kind.destinationLevel n = some a) (hi : i < 512)
    (hbelow : t.node (kind.destinationLevel + 1) (n * 512 + i) = none) :
    ∃ t', HoldsTree (s.remakeSlot kind (setKernelSpace a) i ((n * 512 + i) * kind.unitSize)).mem root t' ∧
      Relaid kind.destinationLevel (n * 512 + i) (n * 512 + i + 1) s t
        (s.remakeSlot kind (setKernelSpace a) i ((n * 512 + i) * kind.unitSize)) t' ∧
      kind.Remade s (s.remakeSlot kind (setKernelSpace a) i ((n * 512 + i) * kind.unitSize))
        (n * 512 + i) (t.leaf kind.destinationLevel (n * 512 + i))
        (t'.leaf kind.destinationLevel (n * 512 + i)) := by
  have ha := h.address hnode
  have hread := read_eq ha s i
  have hother : ∀ {e l x}, ¬(l = kind.destinationLevel ∧ n * 512 + i ≤ x ∧ x < n * 512 + i + 1) →
      (t.setLeaf kind.destinationLevel (n * 512 + i) e).leaf l x = t.leaf l x := fun {e l x} hne =>
    Radix.setLeaf_leaf_of_ne fun ⟨hl, hx⟩ => hne ⟨hl, by omega, by omega⟩
  generalize hvirt : (n * 512 + i) * kind.unitSize = virt
  cases hleaf : t.leaf kind.destinationLevel (n * 512 + i) with
  | some e =>
    have hentry := h.leaf_entry hleaf
    rw [h.word_of_leaf hnode hi hleaf] at hread
    have hne : e ≠ mmuEmptyEntry := by
      rintro rfl
      exact absurd hentry.valid (by decide)
    rw [remakeSlot, hread, if_neg hne]
    by_cases hsame : mmuAttrIndx e = kind.memoryType
    · have hsame' : mmuIsSameMemoryType e kind.memoryType = true := decide_eq_true hsame
      simp only [hsame', Bool.not_true, Bool.false_eq_true, if_false]
      exact ⟨t, h, .refl _ _ _ _ _, .inl ⟨e, rfl, by rw [hleaf, mmuWithMemoryType_self hsame]⟩⟩
    · have hsame' : mmuIsSameMemoryType e kind.memoryType = false := decide_eq_false hsame
      simp only [hsame', Bool.not_false, if_true]
      have hmem : (s.mmuOverrideMemoryType (setKernelSpace a) i kind.memoryType).mem =
          Function.update s.mem (a / 8 + i) (mmuWithMemoryType e kind.memoryType) := by
        rw [mmuOverrideMemoryType, write_mem ha, hread]
      refine ⟨t.setLeaf kind.destinationLevel (n * 512 + i) (mmuWithMemoryType e kind.memoryType), ?_,
        ⟨rfl, rfl, ⟨List.suffix_rfl, List.suffix_rfl⟩, rfl, hother⟩,
        .inl ⟨e, rfl, Radix.setLeaf_leaf_self⟩⟩
      rw [hmem]
      exact h.setLeaf hnode hi hbelow (isLeafEntry_withMemoryType hentry kind.memoryType)
  | none =>
    rw [h.word_of_empty hnode hi hleaf hbelow] at hread
    simp only [remakeSlot, hread, mmuEmptyEntry, if_true]
    obtain ⟨addr, haddr⟩ : ∃ addr, (kind.getPhysSpace (kind.request virt) s.heap).1 = addr := ⟨_, rfl⟩
    have hmem : (s.storeUnit kind (setKernelSpace a) i virt).mem =
        Function.update s.mem (a / 8 + i) (kind.entry addr) := by
      rw [← haddr]
      exact write_mem ha _ i _
    refine ⟨t.setLeaf kind.destinationLevel (n * 512 + i) (kind.entry addr), ?_,
      ⟨rfl, rfl, ⟨List.suffix_rfl, List.suffix_cons _ _⟩, rfl, hother⟩,
      .inr ⟨rfl, addr, Radix.setLeaf_leaf_self, ?_, s.heap, ?_⟩⟩
    · rw [hmem]
      exact h.setLeaf hnode hi hbelow (hkind.isLeafEntry addr)
    · refine ⟨[], [], ?_⟩
      rw [hvirt, ← haddr]
      rfl
    · rw [hvirt, haddr]

/-! ## One table -/

/-- The pages that stand for the blocks of `kind`. -/
def UnitKind.asPages (kind : UnitKind A) : UnitKind A := pageUnits kind.memoryType kind.getPhysSpace

theorem UnitKind.asPages_regular (kind : UnitKind A) : kind.asPages.Regular := pageUnits_regular _ _

theorem UnitKind.asPages_unitSize (kind : UnitKind A) : kind.asPages.unitSize = 4096 :=
  mmuSizeOfLevelRegion_three

theorem UnitKind.asPages_request (kind : UnitKind A) (virtAddr : Nat) :
    kind.asPages.request virtAddr = { virtAddr, pageCount := 1, align := 1 } := by
  have hpages : kind.asPages.pagesForUnit = 1 := by
    rw [pagesForUnit, kind.asPages_unitSize]
    decide
  rw [request, hpages]

theorem fillRound_eq {c : Nat × Mmu A} {table idx : Nat}
    (h : c.2.read table idx % 4 = 0 → c.2.read table idx = 0) :
    fillRound kind table idx c = (u64 (c.1 + mmuPageSize), c.2.remakeSlot kind.asPages table idx c.1) := by
  have hempty : mmuType (c.2.read table idx) = mmuEmptyEntry ↔ c.2.read table idx = mmuEmptyEntry := by
    rw [mmuType_eq, mmuEmptyEntry]
    exact ⟨h, fun heq => by rw [heq]⟩
  rw [fillRound, remakeSlot]
  by_cases hzero : c.2.read table idx = mmuEmptyEntry
  · rw [if_pos (hempty.mpr hzero), if_pos hzero, storeUnit, kind.asPages_request]
    exact congrArg _ (kind.asPages_regular.create (c.2.getPhysSpace kind.getPhysSpace ⟨c.1, 1, 1⟩).2 table
      idx (c.2.getPhysSpace kind.getPhysSpace ⟨c.1, 1, 1⟩).1)
  · rw [if_neg (hzero ∘ hempty.mp), if_neg hzero]
    rfl

/-- A slot of a level 3 table is empty or holds a page. -/
theorem read_page_cases {s : Mmu A} {root n a i : Nat} {t : MmuTree} (h : HoldsTree s.mem root t)
    (hnode : t.node 3 n = some a) (hi : i < 512) :
    t.leaf 3 (n * 512 + i) = none ∧ s.read (setKernelSpace a) i = 0 ∨
      ∃ e, t.leaf 3 (n * 512 + i) = some e ∧ e % 4 = 3 ∧ s.read (setKernelSpace a) i = e := by
  have hbelow := h.node_four (n * 512 + i)
  rw [read_eq (h.address hnode)]
  cases hleaf : t.leaf 3 (n * 512 + i) with
  | none => exact .inl ⟨rfl, h.word_of_empty hnode hi hleaf hbelow⟩
  | some e =>
    have htype : e % 4 = 3 := (h.leaf_entry hleaf).elim (fun h => by omega) (·.2)
    exact .inr ⟨e, rfl, htype, h.word_of_leaf hnode hi hleaf⟩

theorem fillRounds_spec {s : Mmu A} {root n a count : Nat} {t : MmuTree} (h : HoldsTree s.mem root t)
    (hnode : t.node 3 n = some a) (hspace : n < 2 ^ 27) (hcount : count ≤ 512) :
    (forRange (fillRound kind (setKernelSpace a)) count 0 (n * 2097152, s)).1 =
        (n * 512 + count) * 4096 ∧
      ∃ t', HoldsTree (forRange (fillRound kind (setKernelSpace a)) count 0 (n * 2097152, s)).2.mem root t' ∧
        Relaid 3 (n * 512) (n * 512 + count) s t
          (forRange (fillRound kind (setKernelSpace a)) count 0 (n * 2097152, s)).2 t' ∧
        ∀ x, n * 512 ≤ x → x < n * 512 + count → kind.asPages.Remade s
          (forRange (fillRound kind (setKernelSpace a)) count 0 (n * 2097152, s)).2 x
          (t.leaf 3 x) (t'.leaf 3 x) := by
  have hrun := Loop.forRange_invariant (n := count) (k := 0) (s := (n * 2097152, s))
    (f := fillRound kind (setKernelSpace a))
    (I := fun k c => c.1 = (n * 512 + k) * 4096 ∧
      ∃ t', HoldsTree c.2.mem root t' ∧ Relaid 3 (n * 512) (n * 512 + k) s t c.2 t' ∧
        ∀ x, n * 512 ≤ x → x < n * 512 + k → kind.asPages.Remade s c.2 x (t.leaf 3 x) (t'.leaf 3 x))
    (fun k c _ hk hI => ?_) ?_
  · rwa [Nat.zero_add] at hrun
  · obtain ⟨hvirt, t₁, h₁, hrelaid₁, hremade₁⟩ := hI
    have hk' : k < 512 := by omega
    have hnode₁ : t₁.node 3 n = some a := by rw [hrelaid₁.node, hnode]
    have hbelow := h₁.node_four (n * 512 + k)
    have hzero : c.2.read (setKernelSpace a) k % 4 = 0 → c.2.read (setKernelSpace a) k = 0 := by
      rcases read_page_cases h₁ hnode₁ hk' with ⟨-, hread⟩ | ⟨e, -, htype, hread⟩
      · exact fun _ => hread
      · rw [hread]
        omega
    obtain ⟨t₂, h₂, hrelaid₂, hremade₂⟩ := remakeSlot_spec kind.asPages_regular h₁ hnode₁ hk' hbelow
    rw [kind.asPages_unitSize, ← hvirt] at h₂ hrelaid₂ hremade₂
    rw [show kind.asPages.destinationLevel = 3 from rfl] at hrelaid₂ hremade₂
    rw [fillRound_eq hzero]
    rw [Nat.add_assoc] at hrelaid₂
    refine ⟨?_, t₂, h₂, hrelaid₁.trans hrelaid₂ (Nat.le_add_right _ _) (by omega), fun x hlo hhi => ?_⟩
    · dsimp only
      rw [hvirt, mmuPageSize_eq, u64_of_lt (by omega)]
      omega
    · rcases Nat.lt_or_ge x (n * 512 + k) with hlt | hge
      · rw [hrelaid₂.leaf (by omega)]
        exact (hremade₁ x hlo hlt).mono (.refl s) hrelaid₂.recorded
      · obtain rfl : x = n * 512 + k := by omega
        rw [hrelaid₁.leaf (by omega)] at hremade₂
        exact hremade₂.mono hrelaid₁.recorded (.refl _)
  · have hstart : n * 2097152 = (n * 512 + 0) * 4096 := by omega
    exact ⟨hstart, t, h, .refl _ _ _ _ _, fun x hlo hhi => by omega⟩

theorem fillSubtable_spec {s : Mmu A} {root n a : Nat} {t : MmuTree} (h : HoldsTree s.mem root t)
    (hnode : t.node 3 n = some a) (hspace : n < 2 ^ 27) :
    ∃ t', HoldsTree (s.fillSubtable kind (setKernelSpace a) (n * 2097152)).mem root t' ∧
      Relaid 3 (n * 512) (n * 512 + 512) s t (s.fillSubtable kind (setKernelSpace a) (n * 2097152)) t' ∧
      ∀ x, n * 512 ≤ x → x < n * 512 + 512 → kind.asPages.Remade s
        (s.fillSubtable kind (setKernelSpace a) (n * 2097152)) x (t.leaf 3 x) (t'.leaf 3 x) := by
  rw [fillSubtable_eq, mmuNumberOfLevelEntries]
  exact (fillRounds_spec h hnode hspace (Nat.le_refl 512)).2

/-- A table that is full already stays as it is. -/
theorem fillSubtable_of_full {s : Mmu A} {table : Nat}
    (hfull : ∀ i < 512, s.read table i % 4 ≠ 0 ∧ mmuAttrIndx (s.read table i) = kind.memoryType)
    (virtAddr : Nat) : s.fillSubtable kind table virtAddr = s := by
  have hrounds : ∀ count ≤ 512, (forRange (fillRound kind table) count 0 (virtAddr, s)).2 = s := by
    intro count hcount
    refine Loop.forRange_invariant (n := count) (k := 0) (s := (virtAddr, s))
      (f := fillRound kind table) (I := fun _ c => c.2 = s) (fun i c _ hi hc => ?_) rfl
    obtain ⟨hvalid, hsame⟩ := hfull i (by omega)
    have htype : ¬mmuType (s.read table i) = mmuEmptyEntry := by rwa [mmuType_eq]
    have hsame' : mmuIsSameMemoryType (s.read table i) kind.memoryType = true := decide_eq_true hsame
    simp only [fillRound, hc, htype, hsame', Bool.not_true, Bool.false_eq_true, if_false]
  rw [fillSubtable_eq, mmuNumberOfLevelEntries]
  exact hrounds 512 (Nat.le_refl 512)

/-! ## One unit -/

theorem Step.trapped {callback : GetPhysSpace A} {s s' : Mmu A} (h : Step pages callback s s')
    (htrapped : s.trapped = true) : s'.trapped = true := by
  cases h with
  | write => exact htrapped
  | assert condition => rw [Mmu.assert, htrapped, Bool.true_or]
  | createTable => exact htrapped
  | getPhysSpace => exact htrapped

theorem Steps.trapped {callback : GetPhysSpace A} {s s' : Mmu A} (h : Steps pages callback s s')
    (htrapped : s.trapped = true) : s'.trapped = true := by
  induction h with
  | refl => exact htrapped
  | tail _ hstep ih => exact hstep.trapped ih

theorem mapUnit_of_slot (hkind : kind.Regular) {s : Mmu A} {tableData : MmuEntryInfo}
    {unitNumber requestedAddr : Nat}
    (htype : tableData.level ≠ 3 → s.read tableData.table unitNumber % 4 ≠ 3) :
    s.mapUnit kind tableData unitNumber requestedAddr =
      s.remakeSlot kind tableData.table unitNumber requestedAddr := by
  have htype' : ¬(tableData.level ≠ 3 ∧ mmuType (s.read tableData.table unitNumber) = mmuTableEntry) := by
    rw [mmuType_eq]
    exact fun h => htype h.1 h.2
  simp only [mapUnit, remakeSlot, storeUnit, hkind.create]
  by_cases hzero : s.read tableData.table unitNumber = mmuEmptyEntry
  · rw [if_neg (not_not_intro hzero), if_pos hzero]
  · rw [if_pos hzero, if_neg htype', if_neg hzero]

/-- A unit in place of a table: the table of the batch's first slot is filled. -/
theorem mapUnit_of_subtable {s : Mmu A} {tableData : MmuEntryInfo} {unitNumber requestedAddr b : Nat}
    (hlevel : tableData.level ≠ 3) (htype : s.read tableData.table unitNumber % 4 = 3)
    (hb : IsSubtableAddress b)
    (hread : s.read tableData.table tableData.idx = mmuTableEntryBits (setKernelSpace b)) :
    s.mapUnit kind tableData unitNumber requestedAddr =
      s.fillSubtable kind (setKernelSpace b) requestedAddr := by
  have hne : s.read tableData.table unitNumber ≠ mmuEmptyEntry := by
    rw [mmuEmptyEntry]
    omega
  have htype' : mmuType (s.read tableData.table unitNumber) = mmuTableEntry :=
    (mmuType_eq _).trans htype
  have hsubtable := getSubtable_eq hlevel hb hread
  simp only [mapUnit, hne, hlevel, htype', hsubtable, ne_eq, not_false_eq_true, and_self, if_true]

/-- Without a table in the batch's first slot the assertion fails. -/
theorem mapUnit_trapped {s : Mmu A} {tableData : MmuEntryInfo} {unitNumber requestedAddr : Nat}
    (hlevel : tableData.level ≠ 3) (htype : s.read tableData.table unitNumber % 4 = 3)
    (hfirst : s.read tableData.table tableData.idx % 4 ≠ 3) :
    (s.mapUnit kind tableData unitNumber requestedAddr).trapped = true := by
  have hne : s.read tableData.table unitNumber ≠ mmuEmptyEntry := by
    rw [mmuEmptyEntry]
    omega
  have htype' : mmuType (s.read tableData.table unitNumber) = mmuTableEntry :=
    (mmuType_eq _).trans htype
  have hfirst' : decide (mmuType (s.read tableData.table tableData.idx) = mmuTableEntry) = false := by
    rw [mmuType_eq]
    exact decide_eq_false hfirst
  have hassert : (s.mmuGetSubtable tableData.table tableData.idx tableData.level).2.trapped = true := by
    simp only [mmuGetSubtable, hfirst', Mmu.assert, Bool.not_false, Bool.or_true]
  simp only [mapUnit, hne, hlevel, htype', ne_eq, not_false_eq_true, and_self, if_true]
  -- filling takes no tables, so any allocator will do
  have hsteps : Steps ⟨fun heap _ _ => (0, heap), fun heap _ _ => heap⟩ kind.getPhysSpace
      (s.mmuGetSubtable tableData.table tableData.idx tableData.level).2 _ :=
    fillSubtable_steps _ (s.mmuGetSubtable tableData.table tableData.idx tableData.level).1 requestedAddr
  exact hsteps.trapped hassert

/-! ## Units of a range -/

/-- Unit `m` is the first of its batch, when the range starts at `lo`. -/
def FirstUnit (lo m : Nat) : Prop := m = lo ∨ m % 512 = 0

/-- A table in place of a unit is met only in batches whose first slot holds a table too. -/
def Straight (t : MmuTree) (lo hi : Nat) : Prop :=
  ∀ m, lo ≤ m → m < hi → t.node 3 m ≠ none → ¬FirstUnit lo m → t.node 3 (max lo (m / 512 * 512)) ≠ none

/-- What mapping blocks over the units from `lo` up to `hi` makes of a tree. -/
structure Remapped (kind : UnitKind A) (lo hi : Nat) (s : Mmu A) (t : MmuTree) (s' : Mmu A)
    (t' : MmuTree) : Prop where
  node : ∀ n, t'.node 3 n = t.node 3 n
  leaf : ∀ {l x}, ¬(l = 2 ∧ lo ≤ x ∧ x < hi) → ¬(l = 3 ∧ lo ≤ x / 512 ∧ x / 512 < hi) →
    t'.leaf l x = t.leaf l x
  block : ∀ m, lo ≤ m → m < hi → t.node 3 m = none → kind.Remade s s' m (t.leaf 2 m) (t'.leaf 2 m)
  page : ∀ x, lo ≤ x / 512 → x / 512 < hi → t.node 3 (x / 512) ≠ none → FirstUnit lo (x / 512) →
    kind.asPages.Remade s s' x (t.leaf 3 x) (t'.leaf 3 x)
  skipped : ∀ x, lo ≤ x / 512 → x / 512 < hi → t.node 3 (x / 512) ≠ none → ¬FirstUnit lo (x / 512) →
    t'.leaf 3 x = t.leaf 3 x

theorem Straight.refl (t : MmuTree) (lo : Nat) : Straight t lo lo :=
  fun _ hlo hlt => absurd hlt (Nat.not_lt.mpr hlo)

theorem Remapped.refl (kind : UnitKind A) (lo : Nat) (s : Mmu A) (t : MmuTree) :
    Remapped kind lo lo s t s t where
  node _ := rfl
  leaf _ _ := rfl
  block _ hlo hlt := absurd hlt (Nat.not_lt.mpr hlo)
  page _ hlo hlt := absurd hlt (Nat.not_lt.mpr hlo)
  skipped _ _ _ _ _ := rfl

theorem Straight.mono {t : MmuTree} {lo hi hi' : Nat} (h : Straight t lo hi') (hhi : hi ≤ hi') :
    Straight t lo hi :=
  fun m hlo hlt => h m hlo (Nat.lt_of_lt_of_le hlt hhi)

theorem straight_split {t t' : MmuTree} {lo mid hi : Nat} (hnode : ∀ n, t'.node 3 n = t.node 3 n)
    (hlo : lo < mid) (hhi : mid ≤ hi) (hmid : mid % 512 = 0 ∨ mid = hi) :
    Straight t lo hi ↔ Straight t lo mid ∧ Straight t' mid hi := by
  constructor
  · intro h
    refine ⟨h.mono hhi, fun m hm hlt htable hfirst => ?_⟩
    rw [hnode] at htable ⊢
    have hfirst' : ¬FirstUnit lo m := fun hf => hfirst (.inr (by rcases hf with hf | hf <;> omega))
    have hold := h m (by omega) hlt htable hfirst'
    rwa [show max mid (m / 512 * 512) = max lo (m / 512 * 512) by omega]
  · rintro ⟨h₁, h₂⟩ m hm hlt htable hfirst
    rcases Nat.lt_or_ge m mid with hlt' | hge
    · exact h₁ m hm hlt' htable hfirst
    · have hfirst' : ¬FirstUnit mid m := fun hf => hfirst (.inr (by rcases hf with hf | hf <;> omega))
      have hnew := h₂ m hge hlt (by rwa [hnode]) hfirst'
      rw [hnode] at hnew
      rwa [show max lo (m / 512 * 512) = max mid (m / 512 * 512) by omega]

theorem Remapped.trans {lo mid hi : Nat} {s s₁ s₂ : Mmu A} {t t₁ t₂ : MmuTree}
    (h₁ : Remapped kind lo mid s t s₁ t₁) (h₂ : Remapped kind mid hi s₁ t₁ s₂ t₂)
    (hrecorded₁ : RecordedIn s s₁) (hrecorded₂ : RecordedIn s₁ s₂) (hlo : lo < mid) (hhi : mid ≤ hi)
    (hmid : mid % 512 = 0 ∨ mid = hi) : Remapped kind lo hi s t s₂ t₂ where
  node n := (h₂.node n).trans (h₁.node n)
  leaf hblock hpage := (h₂.leaf (by omega) (by omega)).trans (h₁.leaf (by omega) (by omega))
  block m hm hlt hnode := by
    rcases Nat.lt_or_ge m mid with hlt' | hge
    · rw [h₂.leaf (by omega) (by omega)]
      exact (h₁.block m hm hlt' hnode).mono (.refl s) hrecorded₂
    · rw [← h₁.leaf (l := 2) (x := m) (by omega) (by omega)]
      exact (h₂.block m hge hlt (by rw [h₁.node, hnode])).mono hrecorded₁ (.refl s₂)
  page x hm hlt hnode hfirst := by
    rcases Nat.lt_or_ge (x / 512) mid with hlt' | hge
    · rw [h₂.leaf (by omega) (by omega)]
      exact (h₁.page x hm hlt' hnode hfirst).mono (.refl s) hrecorded₂
    · rw [← h₁.leaf (l := 3) (x := x) (by omega) (by omega)]
      have hfirst' : FirstUnit mid (x / 512) := .inr (by rcases hfirst with hf | hf <;> omega)
      exact (h₂.page x hge hlt (by rwa [h₁.node]) hfirst').mono hrecorded₁ (.refl s₂)
  skipped x hm hlt hnode hfirst := by
    rcases Nat.lt_or_ge (x / 512) mid with hlt' | hge
    · rw [h₂.leaf (by omega) (by omega), h₁.skipped x hm hlt' hnode hfirst]
    · have hfirst' : ¬FirstUnit mid (x / 512) := fun hf =>
        hfirst (.inr (by rcases hf with hf | hf <;> omega))
      rw [h₂.skipped x hge hlt (by rwa [h₁.node]) hfirst', h₁.leaf (by omega) (by omega)]

/-- One more unit. -/
theorem Remapped.extend {lo m : Nat} {s s₁ s₂ : Mmu A} {t t₁ t₂ : MmuTree}
    (h : Remapped kind lo m s t s₁ t₁) (hrecorded₁ : RecordedIn s s₁) (hrecorded₂ : RecordedIn s₁ s₂)
    (hlo : lo ≤ m) (hnode : ∀ n, t₂.node 3 n = t₁.node 3 n)
    (hleaf : ∀ {l x}, ¬(l = 2 ∧ x = m) → ¬(l = 3 ∧ x / 512 = m) → t₂.leaf l x = t₁.leaf l x)
    (hblock : t₁.node 3 m = none → kind.Remade s₁ s₂ m (t₁.leaf 2 m) (t₂.leaf 2 m))
    (hpage : t₁.node 3 m ≠ none → FirstUnit lo m → ∀ x, x / 512 = m →
      kind.asPages.Remade s₁ s₂ x (t₁.leaf 3 x) (t₂.leaf 3 x))
    (hskipped : t₁.node 3 m ≠ none → ¬FirstUnit lo m → ∀ x, x / 512 = m → t₂.leaf 3 x = t₁.leaf 3 x) :
    Remapped kind lo (m + 1) s t s₂ t₂ where
  node n := (hnode n).trans (h.node n)
  leaf hblock' hpage' := (hleaf (by omega) (by omega)).trans (h.leaf (by omega) (by omega))
  block m' hm hlt hnone := by
    rcases Nat.lt_or_eq_of_le (Nat.le_of_lt_succ hlt) with hlt' | rfl
    · rw [hleaf (by omega) (by omega)]
      exact (h.block m' hm hlt' hnone).mono (.refl s) hrecorded₂
    · rw [← h.leaf (l := 2) (x := m') (by omega) (by omega)]
      exact (hblock (by rw [h.node, hnone])).mono hrecorded₁ (.refl s₂)
  page x hm hlt htable hfirst := by
    rcases Nat.lt_or_eq_of_le (Nat.le_of_lt_succ hlt) with hlt' | heq
    · rw [hleaf (by omega) (by omega)]
      exact (h.page x hm hlt' htable hfirst).mono (.refl s) hrecorded₂
    · rw [← h.leaf (l := 3) (x := x) (by omega) (by omega)]
      exact (hpage (by rwa [h.node, ← heq]) (heq ▸ hfirst) x heq).mono hrecorded₁ (.refl s₂)
  skipped x hm hlt htable hfirst := by
    rcases Nat.lt_or_eq_of_le (Nat.le_of_lt_succ hlt) with hlt' | heq
    · rw [hleaf (by omega) (by omega), h.skipped x hm hlt' htable hfirst]
    · rw [hskipped (by rwa [h.node, ← heq]) (heq ▸ hfirst) x heq, h.leaf (by omega) (by omega)]

/-- Either an assertion failed, over a range that is not straight, or the units of the
range are mapped. -/
def Outcome (kind : UnitKind A) (lo hi : Nat) (s : Mmu A) (t : MmuTree) (s' : Mmu A)
    (good : MmuTree → Prop) : Prop :=
  s'.trapped = true ∧ ¬Straight t lo hi ∨
    s'.trapped = s.trapped ∧ Straight t lo hi ∧ ∃ t', good t' ∧ Remapped kind lo hi s t s' t'

theorem mmuAttrIndx_entry (hkind : kind.Regular) (htype : kind.memoryType < 8) (addr : Nat) :
    mmuAttrIndx (kind.entry addr) = kind.memoryType := by
  rcases hkind.level with hlevel | hlevel
  · rw [UnitKind.entry_block hlevel, mmuAttrIndx, bitField]
    omega
  · rw [UnitKind.entry_page hlevel, mmuAttrIndx, bitField]
    omega

/-- A slot that was mapped has the memory type. -/
theorem UnitKind.Remade.exists_leaf (hkind : kind.Regular) (htype : kind.memoryType < 8) {s s' : Mmu A}
    {m : Nat} {old new : Option Nat} (h : kind.Remade s s' m old new) :
    ∃ e, new = some e ∧ mmuAttrIndx e = kind.memoryType := by
  rcases h with ⟨e, -, hnew⟩ | ⟨-, addr, hnew, -⟩
  · exact ⟨_, hnew, mmuAttrIndx_withMemoryType htype⟩
  · exact ⟨_, hnew, mmuAttrIndx_entry hkind htype addr⟩

theorem slot_of_div {x m : Nat} (h : x / 512 = m) : m * 512 ≤ x ∧ x < m * 512 + 512 := by
  omega

section Batch

variable (hkind : kind.Regular) (hblock : kind.destinationLevel = 2) (htype : kind.memoryType < 8)
  {s s₁ : Mmu A} {root n a first i : Nat} {t t₁ : MmuTree} (hnode : t.node 2 n = some a)

include hkind hblock htype hnode

/-- One unit of a batch, after those before it. -/
theorem mapUnit_over (h₁ : HoldsTree s₁.mem root t₁) (hnodes : t₁.node = t.node)
    (hremapped : Remapped kind (n * 512 + first) (n * 512 + i) s t s₁ t₁) (hrecorded : RecordedIn s s₁)
    (htrapped : s₁.trapped = s.trapped) (hstraight : Straight t (n * 512 + first) (n * 512 + i))
    (hfirst : first ≤ i) (hi : i < 512) (hspace : n * 512 + i < 2 ^ 27) :
    Outcome kind (n * 512 + first) (n * 512 + i + 1) s t
      (s₁.mapUnit kind ⟨setKernelSpace a, first, 2⟩ i ((n * 512 + i) * 2097152))
      fun t' => HoldsTree (s₁.mapUnit kind ⟨setKernelSpace a, first, 2⟩ i
        ((n * 512 + i) * 2097152)).mem root t' ∧ t'.node = t.node := by
  have hnode₁ : t₁.node 2 n = some a := by rw [hnodes, hnode]
  have hsize : kind.unitSize = 2097152 := by rw [UnitKind.unitSize, hblock, mmuSizeOfLevelRegion_two]
  have hread : ∀ j, s₁.read (setKernelSpace a) j = s₁.mem (a / 8 + j) := read_eq (h₁.address hnode₁) s₁
  cases hc : t₁.node 3 (n * 512 + i) with
  | none =>
    have hstraight' : Straight t (n * 512 + first) (n * 512 + i + 1) := by
      intro m hlo hlt htable hne
      rcases Nat.lt_or_eq_of_le (Nat.le_of_lt_succ hlt) with hlt' | rfl
      · exact hstraight m hlo hlt' htable hne
      · rw [hnodes] at hc
        exact absurd hc htable
    have hslot : s₁.read (setKernelSpace a) i % 4 ≠ 3 := by
      rw [hread]
      cases hleaf : t₁.leaf 2 (n * 512 + i) with
      | none =>
        rw [h₁.word_of_empty hnode₁ hi hleaf hc]
        decide
      | some e =>
        rw [h₁.word_of_leaf hnode₁ hi hleaf]
        have hentry := h₁.leaf_entry hleaf
        rcases hentry with ⟨-, he⟩ | ⟨h23, -⟩
        · omega
        · exact absurd h23 (by decide)
    rw [mapUnit_of_slot hkind fun _ => hslot]
    obtain ⟨t₂, h₂, hrelaid, hremade⟩ := remakeSlot_spec hkind h₁ (hblock ▸ hnode₁) hi (hblock ▸ hc)
    rw [hblock, hsize] at hrelaid
    rw [hsize] at h₂
    rw [hblock, hsize] at hremade
    exact .inr ⟨hrelaid.trapped.trans htrapped, hstraight', t₂, ⟨h₂, hrelaid.node.trans hnodes⟩,
      hremapped.extend hrecorded hrelaid.recorded (by omega) (fun n => by rw [hrelaid.node])
        (fun hne _ => hrelaid.leaf (by omega)) (fun _ => hremade) (fun htable => absurd hc htable)
        (fun htable => absurd hc htable)⟩
  | some c =>
    have hentry : s₁.read (setKernelSpace a) i % 4 = 3 := by
      rw [hread, h₁.word_of_node hnode₁ hi hc]
      exact tableEntry_type _
    have hsome : t₁.node 3 (n * 512 + i) ≠ none := by
      rw [hc]
      exact Option.some_ne_none c
    rcases Nat.lt_or_eq_of_le hfirst with hlt | rfl
    · have hnotFirst : ¬FirstUnit (n * 512 + first) (n * 512 + i) := by
        unfold FirstUnit
        omega
      have hbatch : max (n * 512 + first) ((n * 512 + i) / 512 * 512) = n * 512 + first := by omega
      cases hb : t₁.node 3 (n * 512 + first) with
      | none =>
        refine .inl ⟨?_, fun hall => ?_⟩
        · refine mapUnit_trapped (by decide : 2 ≠ 3) hentry ?_
          have hfirst' := hremapped.block (n * 512 + first) (Nat.le_refl _) (by omega)
            (by rw [← hnodes, hb])
          obtain ⟨e, he, -⟩ := hfirst'.exists_leaf hkind htype
          rw [hread, h₁.word_of_leaf hnode₁ (by omega) he]
          rcases h₁.leaf_entry he with ⟨-, he'⟩ | ⟨h23, -⟩
          · omega
          · exact absurd h23 (by decide)
        · have htable := hall (n * 512 + i) (by omega) (Nat.lt_succ_self _) (hnodes ▸ hsome) hnotFirst
          rw [hbatch, ← hnodes] at htable
          exact htable hb
      | some b =>
        have hstraight' : Straight t (n * 512 + first) (n * 512 + i + 1) := by
          intro m hlo hlt' htable hne
          rcases Nat.lt_or_eq_of_le (Nat.le_of_lt_succ hlt') with hlt' | rfl
          · exact hstraight m hlo hlt' htable hne
          · rw [hbatch, ← hnodes, hb]
            exact Option.some_ne_none b
        have hfirstTable : t.node 3 (n * 512 + first) ≠ none := by
          rw [← hnodes, hb]
          exact Option.some_ne_none b
        have hfull : ∀ j < 512, s₁.read (setKernelSpace b) j % 4 ≠ 0 ∧
            mmuAttrIndx (s₁.read (setKernelSpace b) j) = kind.memoryType := by
          intro j hj
          have hunit : ((n * 512 + first) * 512 + j) / 512 = n * 512 + first := by omega
          have hpage := hremapped.page ((n * 512 + first) * 512 + j) (Nat.le_of_eq hunit.symm)
            (by rw [hunit]; omega) (by rwa [hunit]) (.inl hunit)
          obtain ⟨e, he, hattr⟩ := hpage.exists_leaf kind.asPages_regular htype
          rcases read_page_cases h₁ hb hj with ⟨hleaf, -⟩ | ⟨e', hleaf, htype', hread'⟩
          · rw [hleaf] at he
            cases he
          · rw [hleaf] at he
            cases he
            rw [hread']
            exact ⟨by omega, hattr⟩
        rw [mapUnit_of_subtable (by decide : 2 ≠ 3) hentry (h₁.subtableAddress hb)
          ((hread first).trans (h₁.word_of_node hnode₁ (by omega) hb)), fillSubtable_of_full hfull]
        exact .inr ⟨htrapped, hstraight', t₁, ⟨h₁, hnodes⟩,
          hremapped.extend hrecorded (.refl s₁) (by omega) (fun _ => rfl) (fun _ _ => rfl)
            (fun hnone => absurd hnone hsome) (fun _ hisFirst => absurd hisFirst hnotFirst)
            (fun _ _ _ _ => rfl)⟩
    · have hstraight' : Straight t (n * 512 + first) (n * 512 + first + 1) := by
        intro m hlo hlt htable hne
        exact absurd (.inl (by omega)) hne
      rw [mapUnit_of_subtable (by decide : 2 ≠ 3) hentry (h₁.subtableAddress hc)
        ((hread first).trans (h₁.word_of_node hnode₁ hi hc))]
      obtain ⟨t₂, h₂, hrelaid, hremade⟩ := @fillSubtable_spec A kind s₁ root _ c t₁ h₁ hc hspace
      exact .inr ⟨hrelaid.trapped.trans htrapped, hstraight', t₂, ⟨h₂, hrelaid.node.trans hnodes⟩,
        hremapped.extend hrecorded hrelaid.recorded (Nat.le_refl _) (fun n => by rw [hrelaid.node])
          (fun _ hne => hrelaid.leaf (by omega)) (fun hnone => absurd hnone hsome)
          (fun _ _ x hx => hremade x (slot_of_div hx).1 (slot_of_div hx).2)
          (fun _ hne => absurd (.inl rfl) hne)⟩

/-- The units of one table. -/
theorem batch_over (h : HoldsTree s.mem root t) {count : Nat} (hcount : first + count ≤ 512)
    (hspace : n * 512 + first + count ≤ 2 ^ 27) :
    Outcome kind (n * 512 + first) (n * 512 + first + count) s t
      (s.mapBatch kind ⟨setKernelSpace a, first, 2⟩ count ((n * 512 + first) * 2097152))
      fun t' => HoldsTree (s.mapBatch kind ⟨setKernelSpace a, first, 2⟩ count
        ((n * 512 + first) * 2097152)).mem root t' ∧ t'.node = t.node := by
  have hsize : kind.unitSize = 2097152 := by rw [UnitKind.unitSize, hblock, mmuSizeOfLevelRegion_two]
  have hrun := Loop.forRange_invariant (n := count) (k := first)
    (s := ((n * 512 + first) * 2097152, s)) (f := batchRound kind ⟨setKernelSpace a, first, 2⟩)
    (I := fun i c => c.1 = (n * 512 + i) * 2097152 ∧ RecordedIn s c.2 ∧
      Outcome kind (n * 512 + first) (n * 512 + i) s t c.2
        fun t' => HoldsTree c.2.mem root t' ∧ t'.node = t.node)
    (fun i c hlo hi hI => ?_) ?_
  · rw [← Nat.add_assoc] at hrun
    exact hrun.2.2
  · obtain ⟨hvirt, hrecorded, houtcome⟩ := hI
    have hsteps : Steps ⟨fun heap _ _ => (0, heap), fun heap _ _ => heap⟩ kind.getPhysSpace c.2
        (c.2.mapUnit kind ⟨setKernelSpace a, first, 2⟩ i c.1) := mapUnit_steps hkind c.2 _ i c.1
    refine ⟨?_, hrecorded.trans hsteps.recordedIn, ?_⟩
    · simp only [batchRound, hsize, hvirt]
      rw [u64_of_lt (by omega)]
      omega
    · rcases houtcome with ⟨htrapped, hstraight⟩ | ⟨htrapped, hstraight, t₁, ⟨h₁, hnodes⟩, hremapped⟩
      · exact .inl ⟨hsteps.trapped htrapped, fun h =>
          hstraight (h.mono (Nat.add_le_add_left (Nat.le_succ i) _))⟩
      · have hunit := mapUnit_over hkind hblock htype hnode h₁ hnodes hremapped hrecorded htrapped
          hstraight hlo (by omega) (by omega)
        rwa [← hvirt, Nat.add_assoc] at hunit
  · exact ⟨rfl, .refl s, .inr ⟨rfl, .refl t _, t, ⟨h, rfl⟩, .refl kind _ s t⟩⟩

end Batch

/-! ## The loop over batches -/

theorem Straight.congr {t t' : MmuTree} {lo hi : Nat} (hnode : ∀ n, t'.node 3 n = t.node 3 n) :
    Straight t' lo hi ↔ Straight t lo hi := by
  simp only [Straight, hnode]

theorem Remapped.congr {lo hi : Nat} {s₀ s s' : Mmu A} {t₀ t t' : MmuTree}
    (h : Remapped kind lo hi s t s' t') (hrecorded : RecordedIn s₀ s)
    (hnode : ∀ n, t.node 3 n = t₀.node 3 n) (hleaf : ∀ l x, t.leaf l x = t₀.leaf l x) :
    Remapped kind lo hi s₀ t₀ s' t' where
  node n := (h.node n).trans (hnode n)
  leaf hblock hpage := (h.leaf hblock hpage).trans (hleaf _ _)
  block m hlo hlt hnone := by
    rw [← hleaf]
    exact (h.block m hlo hlt (by rw [hnode, hnone])).mono hrecorded (.refl s')
  page x hlo hlt htable hfirst := by
    rw [← hleaf]
    exact (h.page x hlo hlt (by rwa [hnode]) hfirst).mono hrecorded (.refl s')
  skipped x hlo hlt htable hfirst :=
    (h.skipped x hlo hlt (by rwa [hnode]) hfirst).trans (hleaf _ _)

theorem Fresh.congr {fin s s' : Mmu A} {t t' : MmuTree} (h : Fresh t s fin) (hnode : t'.node = t.node)
    (htables : s'.tables = s.tables) : Fresh t' s' fin := by
  obtain ⟨taken, htaken, hnodup, hnew⟩ := h
  refine ⟨taken, by rw [htaken, htables], hnodup, fun a ha => ⟨(hnew a ha).1, fun ⟨level, n, hhas⟩ => ?_⟩⟩
  exact (hnew a ha).2 ⟨level, n, by rw [← hnode, hhas]⟩

section Loop

variable (hkind : kind.Regular) (hblock : kind.destinationLevel = 2) (htype : kind.memoryType < 8)
  {fin : Mmu A} {root address m : Nat}

include hkind hblock htype

theorem mapRound_over {c : MapCursor A} {t : MmuTree} (h : Holds fin root c.mmu t)
    (hone : ∀ x, t.leaf 1 x = none) (hpos : 0 < c.count)
    (hoffset : address + c.offset = m * 2097152) (hspace : m + c.count ≤ 2 ^ 27)
    (hfin : (mapRound pages kind (setKernelSpace root) 0 address c).mmu.tables <:+ fin.tables) :
    ∃ k, 0 < k ∧ k ≤ c.count ∧ ((m + k) % 512 = 0 ∨ k = c.count) ∧
      (mapRound pages kind (setKernelSpace root) 0 address c).count = c.count - k ∧
      address + (mapRound pages kind (setKernelSpace root) 0 address c).offset = (m + k) * 2097152 ∧
      Outcome kind m (m + k) c.mmu t (mapRound pages kind (setKernelSpace root) 0 address c).mmu
        (Holds fin root (mapRound pages kind (setKernelSpace root) 0 address c).mmu) := by
  have hsize : kind.unitSize = 2097152 := by rw [UnitKind.unitSize, hblock, mmuSizeOfLevelRegion_two]
  obtain ⟨k, hk⟩ : ∃ k, k = min (512 - m % 512) c.count := ⟨_, rfl⟩
  have hvirt : u64 (address + c.offset) = m * 2097152 := by
    rw [u64_of_lt (by omega), hoffset]
  have hslot : slotNumber 2 (m * 2097152) = m := Nat.mul_div_cancel _ (by decide)
  have hnone : ∀ l < 2, t.leaf l (slotNumber l (m * 2097152)) = none := by
    intro l hl
    cases hleaf : t.leaf l (slotNumber l (m * 2097152)) with
    | none => rfl
    | some e =>
      rcases h.tree.leaf_entry hleaf with ⟨hlevel, -⟩ | ⟨hlevel, -⟩
      · obtain rfl : l = 1 := by omega
        rw [hone] at hleaf
        cases hleaf
      · omega
  have htraverse := fun hfin : (c.mmu.mmuTraverseAndAllocTables pages (setKernelSpace root) 0
      (m * 2097152) 2).2.tables <:+ fin.tables =>
    traverse_descended h (by omega : m * 2097152 < 2 ^ 48) (by decide) hfin
  have hsteps : Steps pages kind.getPhysSpace c.mmu (c.mmu.mmuTraverseAndAllocTables pages
      (setKernelSpace root) 0 (m * 2097152) 2).2 := traverse_steps _ _ _ _ _
  simp only [mapRound, hvirt, hblock] at hfin ⊢
  generalize c.mmu.mmuTraverseAndAllocTables pages (setKernelSpace root) 0 (m * 2097152) 2 = r
    at htraverse hsteps hfin ⊢
  obtain ⟨tableData, s₁⟩ := r
  rw [mapBatch_tables hkind] at hfin
  obtain ⟨t₁, a, h₁, hdescended, hnode, rfl⟩ := htraverse hfin
  simp only [hslot] at hnode ⊢
  have hcount : u32 (min (sub64 (mmuNumberOfLevelEntries 2) (m % 512)) c.count) = k := by
    rw [mmuNumberOfLevelEntries, sub64_of_le (by omega), u32_of_lt (by omega), hk]
  have hbatch := batch_over hkind hblock htype hnode h₁.tree (by omega : m % 512 + k ≤ 512)
    (by omega : m / 512 * 512 + m % 512 + k ≤ 2 ^ 27)
  rw [Nat.div_add_mod'] at hbatch
  rw [hcount]
  refine ⟨k, by omega, by omega, by omega, sub32_of_le (by omega), ?_, ?_⟩
  · rw [hsize, u64_of_lt (by omega)]
    omega
  · have hnode₃ := hdescended.node_eq (by decide : 2 < 3)
    have hleaf := hdescended.leaf_eq hnone
    rcases hbatch with ⟨htrapped, hstraight⟩ | ⟨htrapped, hstraight, t₂, ⟨h₂, hnodes⟩, hremapped⟩
    · exact .inl ⟨htrapped, hstraight ∘ (Straight.congr hnode₃).mpr⟩
    · exact .inr ⟨htrapped.trans hdescended.trapped, (Straight.congr hnode₃).mp hstraight, t₂,
        ⟨h₂, h₁.fresh.congr hnodes (mapBatch_tables hkind _ _ _ _)⟩,
        hremapped.congr hsteps.recordedIn hnode₃ hleaf⟩

theorem mapLoop_over {c : MapCursor A} {t : MmuTree} {n : Nat} (h : Holds fin root c.mmu t)
    (hone : ∀ x, t.leaf 1 x = none) (hn : c.count ≤ n)
    (hoffset : address + c.offset = m * 2097152) (hspace : m + c.count ≤ 2 ^ 27)
    (hfin : (loopWhile MapCursor.active
      (mapRound pages kind (setKernelSpace root) 0 address) n c).mmu.tables <:+ fin.tables) :
    Outcome kind m (m + c.count) c.mmu t (loopWhile MapCursor.active
        (mapRound pages kind (setKernelSpace root) 0 address) n c).mmu
      (Holds fin root (loopWhile MapCursor.active
        (mapRound pages kind (setKernelSpace root) 0 address) n c).mmu) := by
  induction n generalizing c m t with
  | zero =>
    obtain hzero : c.count = 0 := Nat.le_zero.mp hn
    rw [hzero]
    exact .inr ⟨rfl, .refl t m, t, h, .refl kind m _ t⟩
  | succ n ih =>
    by_cases hpos : 0 < c.count
    · have htrue : c.active = true := decide_eq_true hpos
      rw [Loop.loopWhile_succ_of_true _ htrue] at hfin ⊢
      have hround : Steps pages kind.getPhysSpace c.mmu _ := mapRound_steps hkind (setKernelSpace root) 0 address c
      have hrest : Steps pages kind.getPhysSpace _ _ := mapLoop_steps hkind (setKernelSpace root) 0
        address n (mapRound pages kind (setKernelSpace root) 0 address c)
      obtain ⟨k, hk, hkc, hend, hcount₁, hoffset₁, houtcome⟩ := mapRound_over hkind hblock htype h hone hpos
        hoffset hspace (hrest.recordedIn.tables.trans hfin)
      have hsum : m + k + (c.count - k) = m + c.count := by omega
      have hmid : (m + k) % 512 = 0 ∨ m + k = m + c.count := by omega
      rcases houtcome with ⟨htrapped, hstraight⟩ | ⟨htrapped, hstraight, t₁, h₁, hremapped₁⟩
      · exact .inl ⟨hrest.trapped htrapped, fun h => hstraight (h.mono (by omega))⟩
      · have hone₁ : ∀ x, t₁.leaf 1 x = none := fun x => by
          rw [hremapped₁.leaf (by omega) (by omega), hone]
        have hnext := ih h₁ hone₁ (by omega) hoffset₁ (by omega) hfin
        rw [hcount₁, hsum] at hnext
        have hsplit : Straight t m (m + c.count) ↔ Straight t m (m + k) ∧ Straight t₁ (m + k) (m + c.count) :=
          straight_split hremapped₁.node (by omega) (by omega) hmid
        rcases hnext with ⟨htrapped₂, hstraight₂⟩ | ⟨htrapped₂, hstraight₂, t₂, h₂, hremapped₂⟩
        · exact .inl ⟨htrapped₂, fun h => hstraight₂ (hsplit.mp h).2⟩
        · exact .inr ⟨htrapped₂.trans htrapped, hsplit.mpr ⟨hstraight, hstraight₂⟩, t₂, h₂,
            hremapped₁.trans hremapped₂ hround.recordedIn hrest.recordedIn (by omega) (by omega) hmid⟩
    · have hfalse : c.active = false := decide_eq_false hpos
      have hzero : c.count = 0 := by omega
      rw [Loop.loopWhile_of_false _ hfalse, hzero]
      exact .inr ⟨rfl, .refl t m, t, h, .refl kind m _ t⟩

end Loop

/-! ## The property -/

/-- Where the call mapped `va`: what was there has the memory type now, what was not
has the memory the callback gave for its page or block. -/
structure Overlaid (memoryType : Nat) (getPhysSpace : GetPhysSpace A) (root : Nat) (s s' : Mmu A)
    (va : Nat) (tr : Translation) : Prop where
  walk : walk s'.mem root va = some tr
  memoryType : tr.attrIndx = memoryType
  kept : ∀ old, PiVOS.walk s.mem root va = some old → tr.pa = old.pa
  granted : PiVOS.walk s.mem root va = none → ∃ size addr,
    (size = mmuSizeOfLevelRegion 2 ∨ size = mmuSizeOfLevelRegion 3) ∧
    GrantedSince s s' (unitRequest size va) addr ∧
    (∃ heap, (getPhysSpace (unitRequest size va) heap).1 = addr) ∧ tr.pa = addr + va % size

/-- What mapping `size` bytes from `address` on should have done from `s` to `s'`. -/
structure MapsOver (memoryType : Nat) (getPhysSpace : GetPhysSpace A) (root address size : Nat)
    (s s' : Mmu A) : Prop where
  trapped : s'.trapped = false
  inside : ∀ va, address ≤ va → va < address + size →
    ∃ tr, Overlaid memoryType getPhysSpace root s s' va tr
  outside : ∀ va < 2 ^ 48, ¬(address ≤ va ∧ va < address + size) →
    walk s'.mem root va = walk s.mem root va

/-- The answers of a callback from `s` to `s'`: the address itself or aligned memory. -/
def SoundSince (s s' : Mmu A) : Prop :=
  ∀ request addr, GrantedSince s s' request addr →
    addr = request.virtAddr ∨ addr % (request.align * mmuPageSize) = 0 ∧ addr < 2 ^ 48

/-- A slot on the way of `va` that was mapped, when nothing else is on the way. -/
theorem UnitKind.Remade.overlaid (hkind : kind.Regular) (htype : kind.memoryType < 8) {s s' : Mmu A}
    {root va : Nat} {t t' : MmuTree} (h : HoldsTree s.mem root t) (h' : HoldsTree s'.mem root t')
    (hva : va < 2 ^ 48) (hsound : SoundSince s s')
    (hremade : kind.Remade s s' (slotNumber kind.destinationLevel va)
      (t.leaf kind.destinationLevel (slotNumber kind.destinationLevel va))
      (t'.leaf kind.destinationLevel (slotNumber kind.destinationLevel va)))
    (hnone : t.leaf kind.destinationLevel (slotNumber kind.destinationLevel va) = none →
      ∀ l, t.leaf l (slotNumber l va) = none) :
    ∃ tr, Overlaid kind.memoryType kind.getPhysSpace root s s' va tr := by
  rcases hremade with ⟨e, hold, hnew⟩ | ⟨hold, addr, hnew, hgrant, heap, hanswer⟩
  · have hentry := h.leaf_entry hold
    have hwalk := h.walk_of_leaf hva hold
    refine ⟨_, h'.walk_of_leaf hva hnew, ?_, fun old hwalk' => ?_, fun hwalk' => ?_⟩
    · rw [translate_withMemoryType hentry htype]
    · rw [hwalk] at hwalk'
      cases hwalk'
      rw [translate_withMemoryType hentry htype]
    · rw [hwalk] at hwalk'
      cases hwalk'
  · have hwalk := h.walk_of_no_leaf hva (hnone hold)
    rw [hkind.request_unit] at hgrant hanswer
    have halign := hkind.aligned_of_sound hva (hsound _ _ hgrant)
    refine ⟨_, h'.walk_of_leaf hva hnew, ?_, fun old hwalk' => ?_, fun _ => ?_⟩
    · rw [hkind.translate_entry halign.1 halign.2 htype]
    · rw [hwalk] at hwalk'
      cases hwalk'
    · refine ⟨kind.unitSize, addr, ?_, hgrant, ⟨heap, hanswer⟩, ?_⟩
      · rw [UnitKind.unitSize]
        exact hkind.level.imp (congrArg _) (congrArg _)
      · rw [hkind.translate_entry halign.1 halign.2 htype]

/-- No table is in the way of the units: every one that stands in place of a unit is
met first in its batch, or after another one and with nothing left to do in it. -/
def NothingLeft (t : MmuTree) (memoryType lo hi : Nat) : Prop :=
  ∀ m, lo ≤ m → m < hi → t.node 3 m ≠ none → ¬FirstUnit lo m →
    t.node 3 (max lo (m / 512 * 512)) ≠ none ∧
    ∀ x, x / 512 = m → ∃ e, t.leaf 3 x = some e ∧ mmuAttrIndx e = memoryType

section Overlaid

variable (hkind : kind.Regular) (hblock : kind.destinationLevel = 2) (htype : kind.memoryType < 8)
  {s s' : Mmu A} {root first hi : Nat} {t t' : MmuTree} (h : HoldsTree s.mem root t)
  (h' : HoldsTree s'.mem root t') (hremapped : Remapped kind first hi s t s' t')

include hkind hblock htype h h' hremapped

/-- An address of the range. -/
theorem Remapped.overlaid (hone : ∀ x, t.leaf 1 x = none) (hsound : SoundSince s s')
    (hleft : NothingLeft t kind.memoryType first hi) {va : Nat} (hva : va < 2 ^ 48)
    (hlo : first ≤ slotNumber 2 va) (hlt : slotNumber 2 va < hi) :
    ∃ tr, Overlaid kind.memoryType kind.getPhysSpace root s s' va tr := by
  have hpath : slotNumber 3 va / 512 = slotNumber 2 va := slotNumber_path va 2 (by decide)
  have hother : ∀ l, l ≠ 2 → l ≠ 3 → t.leaf l (slotNumber l va) = none := by
    intro l h2 h3
    cases hleaf : t.leaf l (slotNumber l va) with
    | none => rfl
    | some e =>
      rcases h.leaf_entry hleaf with ⟨rfl | hl, -⟩ | ⟨hl, -⟩
      · rw [hone] at hleaf
        cases hleaf
      · exact absurd hl h2
      · exact absurd hl h3
  cases hc : t.node 3 (slotNumber 2 va) with
  | none =>
    have hremade := hremapped.block _ hlo hlt hc
    rw [← hblock] at hremade
    refine hremade.overlaid hkind htype h h' hva hsound fun hnone l => ?_
    rw [hblock] at hnone
    by_cases h2 : l = 2
    · rw [h2, hnone]
    · by_cases h3 : l = 3
      · rw [h3]
        exact h.wellFormed.leaf_eq_none (by rw [hpath, hc])
      · exact hother l h2 h3
  | some c =>
    have htable : t.node 3 (slotNumber 3 va / 512) ≠ none := by
      rw [hpath, hc]
      exact Option.some_ne_none c
    rw [← hpath] at hlo hlt hc
    have hremade : kind.asPages.Remade s s' (slotNumber 3 va) (t.leaf 3 (slotNumber 3 va))
        (t'.leaf 3 (slotNumber 3 va)) := by
      by_cases hfirst : FirstUnit first (slotNumber 3 va / 512)
      · exact hremapped.page _ hlo hlt htable hfirst
      · obtain ⟨e, he, hattr⟩ := (hleft _ hlo hlt htable hfirst).2 _ rfl
        refine .inl ⟨e, he, ?_⟩
        rw [hremapped.skipped _ hlo hlt htable hfirst, he]
        exact congrArg some (mmuWithMemoryType_self hattr).symm
    refine UnitKind.Remade.overlaid kind.asPages_regular htype h h' hva hsound hremade fun hnone l => ?_
    by_cases h2 : l = 2
    · exact h.leaf_eq_none_above hc (by omega)
    · by_cases h3 : l = 3
      · rw [h3]
        exact hnone
      · exact hother l h2 h3

end Overlaid

theorem NothingLeft.straight {t : MmuTree} {memoryType lo hi : Nat} (h : NothingLeft t memoryType lo hi) :
    Straight t lo hi :=
  fun m hlo hlt htable hfirst => (h m hlo hlt htable hfirst).1

/-- Addresses outside the range are translated as before. -/
theorem Remapped.walk_outside {s s' : Mmu A} {root first hi va : Nat} {t t' : MmuTree}
    (h : HoldsTree s.mem root t) (h' : HoldsTree s'.mem root t')
    (hremapped : Remapped kind first hi s t s' t') (hva : va < 2 ^ 48)
    (hout : ¬(first ≤ slotNumber 2 va ∧ slotNumber 2 va < hi)) :
    walk s'.mem root va = walk s.mem root va := by
  have hpath : slotNumber 3 va / 512 = slotNumber 2 va := slotNumber_path va 2 (by decide)
  rw [walk_eq_map, walk_eq_map, h.walkEntry_eq hva, h'.walkEntry_eq hva]
  refine congrArg _ (h.wellFormed.find_congr h'.wellFormed (slotNumber_path va) (by decide) fun l => ?_)
  refine hremapped.leaf ?_ ?_
  · rintro ⟨rfl, hin⟩
    exact hout hin
  · rintro ⟨rfl, hin⟩
    rw [hpath] at hin
    exact hout hin

/-- Where the units' pages were left alone and some were missing, the call maps less
than it should. -/
theorem Remapped.nothingLeft {s s' : Mmu A} {root first hi memoryType : Nat} {t t' : MmuTree}
    (h' : HoldsTree s'.mem root t') (hremapped : Remapped kind first hi s t s' t')
    (hstraight : Straight t first hi) (hspace : hi ≤ 2 ^ 27)
    (hmapped : ∀ va, first ≤ slotNumber 2 va → slotNumber 2 va < hi →
      ∃ tr, walk s'.mem root va = some tr ∧ tr.attrIndx = memoryType) :
    NothingLeft t memoryType first hi := by
  intro m hlo hlt htable hfirst
  refine ⟨hstraight m hlo hlt htable hfirst, fun x hx => ?_⟩
  have hslot₃ : slotNumber 3 (x * 4096) = x := Nat.mul_div_cancel _ (by decide)
  have hpath : slotNumber 3 (x * 4096) / 512 = slotNumber 2 (x * 4096) := slotNumber_path _ 2 (by decide)
  have hslot₂ : slotNumber 2 (x * 4096) = m := by rw [← hpath, hslot₃, hx]
  have hva : x * 4096 < 2 ^ 48 := by omega
  obtain ⟨tr, hwalk, hattr⟩ := hmapped (x * 4096) (by rwa [hslot₂]) (by rwa [hslot₂])
  have hsame := hremapped.skipped x (by rwa [hx]) (by rwa [hx]) (by rwa [hx]) (by rwa [hx])
  obtain ⟨c, hc⟩ := Option.ne_none_iff_exists'.mp htable
  have hc' : t'.node 3 (slotNumber 3 (x * 4096) / 512) = some c := by rw [hslot₃, hx, hremapped.node, hc]
  cases hleaf : t.leaf 3 x with
  | some e =>
    refine ⟨e, rfl, ?_⟩
    have hleaf' : t'.leaf 3 (slotNumber 3 (x * 4096)) = some e := by rw [hslot₃, hsame, hleaf]
    rw [h'.walk_of_leaf hva hleaf'] at hwalk
    cases hwalk
    exact hattr
  | none =>
    exfalso
    have hnone : ∀ l, t'.leaf l (slotNumber l (x * 4096)) = none := by
      intro l
      rcases Nat.lt_trichotomy l 3 with hl | rfl | hl
      · exact h'.leaf_eq_none_above hc' hl
      · rw [hslot₃, hsame, hleaf]
      · cases hleaf' : t'.leaf l (slotNumber l (x * 4096)) with
        | none => rfl
        | some e => rcases h'.leaf_entry hleaf' with ⟨hlevel, -⟩ | ⟨hlevel, -⟩ <;> omega
    rw [h'.walk_of_no_leaf hva hnone] at hwalk
    cases hwalk

/-! ## The call -/

section Call

variable {getPhysSpace : GetPhysSpace A} {s : Mmu A} {root address count memoryType : Nat}
  {t : MmuTree} (h : HoldsTree s.mem root t) (hone : ∀ x, t.leaf 1 x = none)
  (haligned : address % 2097152 = 0) (hspace : address + count * 2097152 ≤ 2 ^ 48)
  (htype : memoryType < 8)
  (hfresh : Fresh t s (s.mmuMapUnits pages (blockUnits memoryType getPhysSpace) (setKernelSpace root) 0
    address count))

include h hone haligned hspace htype hfresh

theorem mapUnits_over : Outcome (blockUnits memoryType getPhysSpace) (address / 2097152)
    (address / 2097152 + count) s t (s.mmuMapUnits pages (blockUnits memoryType getPhysSpace)
      (setKernelSpace root) 0 address count)
    fun t' => HoldsTree (s.mmuMapUnits pages (blockUnits memoryType getPhysSpace) (setKernelSpace root) 0
      address count).mem root t' := by
  have hspace' : address / 2097152 + count ≤ 2 ^ 27 := by omega
  have hloop := @mapLoop_over A pages _ (UnitKind.blockUnits_regular memoryType getPhysSpace)
    rfl htype _ root address _ ⟨count, 0, s⟩ t count ⟨h, hfresh⟩ hone (Nat.le_refl count)
    (by omega : address + 0 = address / 2097152 * 2097152) hspace' List.suffix_rfl
  rcases hloop with hbad | ⟨htrapped, hstraight, t', h', hremapped⟩
  · exact .inl hbad
  · exact .inr ⟨htrapped, hstraight, t', h'.tree, hremapped⟩

end Call

/-- Three units over a table with two of its pages, a block and an empty slot. -/
def mixedBatch : Mmu Nat :=
  (blank mixedMem 1).mmuMapUnits pageCounter (blockUnits 1 getPhysSpaceOneToOne) (setKernelSpace 0x1000) 0 0 3

/-- The page at 2 MB, in the table of the second unit. -/
def secondUnit : Insertion Nat :=
  { address := 0x200000, size := 0x1000, memoryType := 0, getPhysSpace := getPhysSpaceOneToOne }

/-- The tables with that page, and what becomes of them when two blocks are mapped at 0. -/
def secondUnitMapped : Mmu Nat := (insertAll pageCounter (fun _ => 0) 1 [secondUnit]).2

def twoBlocks : Mmu Nat :=
  secondUnitMapped.mmuMapUnits pageCounter (blockUnits 0 getPhysSpaceOneToOne) (setKernelSpace 0x1000) 0 0 2

theorem secondUnit_valid : secondUnit.Valid := by
  constructor <;> decide

def secondUnitPages : Stretch Nat := ⟨pageUnits 0 getPhysSpaceOneToOne, 0x200, 1⟩

theorem secondUnitPages_valid : secondUnitPages.Valid :=
  ⟨UnitKind.pageUnits_regular _ _, by decide, by decide⟩

theorem secondUnitMapped_eq :
    secondUnitMapped = secondUnitPages.map pageCounter 0x1000 counterStart.2 := by
  have hroot : counterStart.1 = setKernelSpace 0x1000 := rfl
  have hstart : secondUnitPages.first * secondUnitPages.kind.unitSize = 0x200000 := by decide
  have happly := Insertion.apply_of_short secondUnit_valid pageCounter counterStart.1 counterStart.2
    (by decide) (by decide : secondUnit.size = 1 * 4096)
  rw [secondUnitMapped, insertAll_counter, happly, hroot, Stretch.map, hstart]
  rfl

end Mmu
end PiVOS
