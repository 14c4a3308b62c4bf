-- SUMMARY: Single steps of the table code on a tree, and the descent that allocates tables.
import PiVOS.Memory.Mmu.Tree
import Mathlib.Data.List.Infix
import Mathlib.Logic.Relation

/-!
# Descending with allocation

The allocator is not modelled here. What is shown of a call assumes that the
pages the record holds for it are new: distinct, page aligned, below 64 GB, and not yet
tables of the tree.
-/

namespace PiVOS
namespace Mmu

variable {A : Type}

/-! ## Single steps -/

/-- All the table code does to the state, one thing at a time. -/
inductive Step (pages : PageHeap A) (callback : GetPhysSpace A) : Mmu A → Mmu A → Prop
  | write (s : Mmu A) (table idx entry : Nat) : Step pages callback s (s.write table idx entry)
  | assert (s : Mmu A) (condition : Bool) : Step pages callback s (s.assert condition)
  | createTable (s : Mmu A) : Step pages callback s (s.memoryMmuCreateTable pages).2
  | getPhysSpace (s : Mmu A) (request : MmuPhysSpaceRequest) :
      Step pages callback s (s.getPhysSpace callback request).2

abbrev Steps (pages : PageHeap A) (callback : GetPhysSpace A) : Mmu A → Mmu A → Prop :=
  Relation.ReflTransGen (Step pages callback)

/-- The record of `s` is an earlier one of that of `s'`. -/
structure RecordedIn (s s' : Mmu A) : Prop where
  tables : s.tables <:+ s'.tables
  grants : s.grants <:+ s'.grants

theorem RecordedIn.refl (s : Mmu A) : RecordedIn s s := ⟨List.suffix_rfl, List.suffix_rfl⟩

theorem RecordedIn.trans {s s' s'' : Mmu A} (h : RecordedIn s s') (h' : RecordedIn s' s'') :
    RecordedIn s s'' :=
  ⟨h.tables.trans h'.tables, h.grants.trans h'.grants⟩

variable {pages : PageHeap A} {callback : GetPhysSpace A}

theorem Step.recordedIn {s s' : Mmu A} (h : Step pages callback s s') : RecordedIn s s' := by
  cases h with
  | write => exact ⟨List.suffix_rfl, List.suffix_rfl⟩
  | assert => exact ⟨List.suffix_rfl, List.suffix_rfl⟩
  | createTable => exact ⟨List.suffix_cons _ _, List.suffix_rfl⟩
  | getPhysSpace => exact ⟨List.suffix_rfl, List.suffix_cons _ _⟩

theorem Steps.recordedIn {s s' : Mmu A} (h : Steps pages callback s s') : RecordedIn s s' := by
  induction h with
  | refl => exact .refl s
  | tail _ hstep ih => exact ih.trans hstep.recordedIn

/-- A counted loop whose rounds are steps is steps. -/
theorem Steps.forRange {σ : Type} {body : Nat → σ → σ} (mmu : σ → Mmu A)
    (hbody : ∀ i c, Steps pages callback (mmu c) (mmu (body i c))) (n first : Nat) (c : σ) :
    Steps pages callback (mmu c) (mmu (forRange body n first c)) := by
  refine Loop.forRange_invariant (I := fun _ c' => Steps pages callback (mmu c) (mmu c')) ?_ .refl
  intro i c' _ _ hc
  exact hc.trans (hbody i c')

theorem createTableEntry_steps (s : Mmu A) (table idx level next : Nat) :
    Steps pages callback s (s.mmuCreateTableEntry table idx level next) :=
  (Relation.ReflTransGen.single (.assert s _)).tail (.write _ _ _ _)

theorem getSubtable_steps (s : Mmu A) (table idx level : Nat) :
    Steps pages callback s (s.mmuGetSubtable table idx level).2 :=
  (Relation.ReflTransGen.single (.assert s _)).tail (.assert _ _)

theorem createEntry_steps (level idx table address memoryType : Nat) (s : Mmu A) :
    Steps pages callback s (s.mmuCreateBlockEntry table idx level address memoryType) ∧
      Steps pages callback s (s.mmuCreatePageEntry table idx level address memoryType) :=
  ⟨(Relation.ReflTransGen.single (.assert s _)).tail (.write _ _ _ _),
    (Relation.ReflTransGen.single (.assert s _)).tail (.write _ _ _ _)⟩

theorem splitBlockEntry_steps (s : Mmu A) (table idx level : Nat) :
    Steps pages callback s (s.mmuSplitBlockEntry pages table idx level).2 := by
  have hnew : Steps pages callback s (s.memoryMmuCreateTable pages).2 := .single (.createTable s)
  simp only [mmuSplitBlockEntry]
  refine (hnew.trans (createTableEntry_steps _ _ _ _ _)).trans
    (Steps.forRange (fun c => c) (fun i c => ?_) _ _ _)
  split
  · exact (createEntry_steps _ _ _ _ _ c).1
  · exact (createEntry_steps _ _ _ _ _ c).2

theorem descend_steps (level : Nat) (d : Descent A) :
    Steps pages callback d.mmu (descend pages level d).mmu := by
  have hnew : Steps pages callback d.mmu (d.mmu.memoryMmuCreateTable pages).2 :=
    .single (.createTable d.mmu)
  simp only [descend]
  split
  · exact hnew.trans (createTableEntry_steps _ _ _ _ _)
  · split
    · exact getSubtable_steps _ _ _ _
    · have hsplit : Steps pages callback d.mmu (d.mmu.mmuSplitBlockEntry pages d.table
          (u32 (d.address / mmuSizeOfLevelRegion level)) level).2 := splitBlockEntry_steps _ _ _ _
      generalize d.mmu.mmuSplitBlockEntry pages d.table _ level = split at hsplit ⊢
      exact hsplit

theorem descent_recordedIn (pages : PageHeap A) (n level : Nat) (d : Descent A) :
    RecordedIn d.mmu (forRange (descend pages) n level d).mmu := by
  -- the descent does not ask the callback, so any will do
  have hsteps : Steps pages (fun _ heap => (0, heap)) d.mmu (forRange (descend pages) n level d).mmu :=
    Steps.forRange Descent.mmu descend_steps n level d
  exact hsteps.recordedIn

theorem traverse_steps (s : Mmu A) (table level address destinationLevel : Nat) :
    Steps pages callback s
      (s.mmuTraverseAndAllocTables pages table level address destinationLevel).2 := by
  simp only [mmuTraverseAndAllocTables]
  exact Steps.forRange Descent.mmu descend_steps (destinationLevel - level) level ⟨table, address, s⟩

/-! ## The number of tables -/

theorem splitBlockEntry_tables (pages : PageHeap A) (s : Mmu A) (table idx level : Nat) :
    (s.mmuSplitBlockEntry pages table idx level).2.tables =
      (s.memoryMmuCreateTable pages).2.tables := by
  simp only [mmuSplitBlockEntry]
  refine Loop.forRange_invariant
    (I := fun _ (s' : Mmu A) => s'.tables = (s.memoryMmuCreateTable pages).2.tables)
    (fun i s' _ _ h => ?_) rfl
  split
  · exact h
  · exact h

theorem descend_tables_length (pages : PageHeap A) (level : Nat) (d : Descent A) :
    (descend pages level d).mmu.tables.length ≤ d.mmu.tables.length + 1 := by
  simp only [descend]
  split
  · exact Nat.le_refl _
  · split
    · exact Nat.le_succ _
    · have hsplit := splitBlockEntry_tables pages d.mmu d.table
        (u32 (d.address / mmuSizeOfLevelRegion level)) level
      generalize d.mmu.mmuSplitBlockEntry pages d.table _ level = split at hsplit ⊢
      exact Nat.le_of_eq (congrArg List.length hsplit)

theorem descent_tables_length (pages : PageHeap A) (n level : Nat) (d : Descent A) :
    (forRange (descend pages) n level d).mmu.tables.length ≤ d.mmu.tables.length + n := by
  induction n generalizing level d with
  | zero => exact Nat.le_refl _
  | succ n ih =>
    have hfirst := descend_tables_length pages level d
    have hrest := ih (level + 1) (descend pages level d)
    rw [forRange]
    omega

/-! ## Slots in memory -/

theorem wordOf_setKernelSpace {a : Nat} (h : IsTableAddress a) (idx : Nat) :
    wordOf (setKernelSpace a) idx = a / 8 + idx := by
  rw [wordOf, clearKernelSpace_setKernelSpace h.2]

theorem read_eq {a : Nat} (h : IsTableAddress a) (s : Mmu A) (idx : Nat) :
    s.read (setKernelSpace a) idx = s.mem (a / 8 + idx) := by
  rw [Mmu.read, wordOf_setKernelSpace h]

theorem write_mem {a : Nat} (h : IsTableAddress a) (s : Mmu A) (idx entry : Nat) :
    (s.write (setKernelSpace a) idx entry).mem = Function.update s.mem (a / 8 + idx) entry := by
  rw [Mmu.write, wordOf_setKernelSpace h]

/-- The page `memory_mmu_create_table` takes. -/
def newPage (pages : PageHeap A) (s : Mmu A) : Nat := (pages.pagesAlloc s.heap 1 1).1

theorem createTable_fst (s : Mmu A) :
    (s.memoryMmuCreateTable pages).1 = setKernelSpace (s.newPage pages) := rfl

theorem createTable_tables (s : Mmu A) :
    (s.memoryMmuCreateTable pages).2.tables = s.newPage pages :: s.tables := rfl

theorem createTable_mem {s : Mmu A} (h : IsTableAddress (s.newPage pages)) (w : Nat) :
    (s.memoryMmuCreateTable pages).2.mem w =
      if InTable (s.newPage pages) w then 0 else s.mem w := by
  simp only [memoryMmuCreateTable, clearPage]
  rw [show setKernelSpace (pages.pagesAlloc s.heap 1 1).1 = setKernelSpace (s.newPage pages) from rfl,
    wordOf_setKernelSpace h, wordOf_setKernelSpace h]
  rfl

/-! ## Growing trees -/

/-- The pages taken for tables from `s` to `fin` are new. -/
def Fresh (t : MmuTree) (s fin : Mmu A) : Prop :=
  ∃ taken, fin.tables = taken ++ s.tables ∧ taken.Nodup ∧
    ∀ a ∈ taken, IsSubtableAddress a ∧ ¬t.HasTable a

/-- Memory holds the tree, and what is taken for tables until `fin` is new to it. -/
structure Holds (fin : Mmu A) (root : Nat) (s : Mmu A) (t : MmuTree) : Prop where
  tree : HoldsTree s.mem root t
  fresh : Fresh t s fin

/-- From `s` and `t` to `s'` and `t'` tables were added in places `way` tells and
leaves that `fill` tells; the rest of memory is the same. -/
structure Grown (s : Mmu A) (t : MmuTree) (s' : Mmu A) (t' : MmuTree) (way : Nat → Nat → Prop)
    (fill : Nat → Nat → Nat → Prop) : Prop where
  node_old : ∀ {level n a}, t.node level n = some a → t'.node level n = some a
  node_new : ∀ {level n a}, t'.node level n = some a → t.node level n = some a ∨ way level n
  leaf_old : ∀ {level m e}, t.leaf level m = some e → t'.leaf level m = some e
  leaf_new : ∀ {level m e}, t'.leaf level m = some e → t.leaf level m = some e ∨ fill level m e
  mem : ∀ w, (∀ a, t'.HasTable a → ¬InTable a w) → s'.mem w = s.mem w

namespace Grown

variable {s s₁ s₂ : Mmu A} {t t₁ t₂ : MmuTree} {way way₁ way₂ : Nat → Nat → Prop}
  {fill fill₁ fill₂ : Nat → Nat → Nat → Prop}

theorem refl (s : Mmu A) (t : MmuTree) : Grown s t s t way fill :=
  ⟨id, .inl, id, .inl, fun _ _ => rfl⟩

theorem hasTable (h : Grown s t s₁ t₁ way fill) {a : Nat} (ha : t.HasTable a) : t₁.HasTable a := by
  obtain ⟨level, n, hnode⟩ := ha
  exact ⟨level, n, h.node_old hnode⟩

theorem node_none (h : Grown s t s₁ t₁ way fill) {level n : Nat} (hnone : t.node level n = none)
    (hway : ¬way level n) : t₁.node level n = none := by
  cases hnode : t₁.node level n with
  | none => rfl
  | some a =>
    rcases h.node_new hnode with hold | hnew
    · rw [hnone] at hold
      cases hold
    · exact absurd hnew hway

theorem leaf_none (h : Grown s t s₁ t₁ way fill) {level m : Nat} (hnone : t.leaf level m = none)
    (hfill : ∀ e, ¬fill level m e) : t₁.leaf level m = none := by
  cases hleaf : t₁.leaf level m with
  | none => rfl
  | some e =>
    rcases h.leaf_new hleaf with hold | hnew
    · rw [hnone] at hold
      cases hold
    · exact absurd hnew (hfill e)

theorem trans (h₁ : Grown s t s₁ t₁ way₁ fill₁) (h₂ : Grown s₁ t₁ s₂ t₂ way₂ fill₂)
    (hway₁ : ∀ {level n}, way₁ level n → way level n)
    (hway₂ : ∀ {level n}, way₂ level n → way level n)
    (hfill₁ : ∀ {level m e}, fill₁ level m e → fill level m e)
    (hfill₂ : ∀ {level m e}, fill₂ level m e → fill level m e) :
    Grown s t s₂ t₂ way fill where
  node_old h := h₂.node_old (h₁.node_old h)
  node_new h := by
    rcases h₂.node_new h with h | h
    · exact (h₁.node_new h).imp id hway₁
    · exact .inr (hway₂ h)
  leaf_old h := h₂.leaf_old (h₁.leaf_old h)
  leaf_new h := by
    rcases h₂.leaf_new h with h | h
    · exact (h₁.leaf_new h).imp id hfill₁
    · exact .inr (hfill₂ h)
  mem w hw := by
    rw [h₂.mem w hw, h₁.mem w fun a ha => hw a (h₂.hasTable ha)]

end Grown

theorem Holds.of_mem_eq {fin s s' : Mmu A} {root : Nat} {t : MmuTree} (h : Holds fin root s t)
    (hmem : s'.mem = s.mem) (htables : s'.tables = s.tables) : Holds fin root s' t :=
  ⟨hmem ▸ h.tree, by rw [Fresh, htables]; exact h.fresh⟩

/-- The step that stores a leaf. -/
theorem Holds.setLeaf {fin s s' : Mmu A} {root level n a i e : Nat} {t : MmuTree}
    (h : Holds fin root s t) (hnode : t.node level n = some a) (hi : i < 512)
    (hleaf : t.leaf level (n * 512 + i) = none) (hbelow : t.node (level + 1) (n * 512 + i) = none)
    (he : IsLeafEntry level e) (hmem : s'.mem = Function.update s.mem (a / 8 + i) e)
    (htables : s'.tables = s.tables) :
    Holds fin root s' (t.setLeaf level (n * 512 + i) e) ∧
      Grown s t s' (t.setLeaf level (n * 512 + i) e) (fun _ _ => False)
        (fun level' m e' => level' = level ∧ m = n * 512 + i ∧ e' = e) := by
  refine ⟨⟨?_, ?_⟩, ?_⟩
  · rw [hmem]
    exact h.tree.setLeaf hnode hi hbelow he
  · rw [Fresh, htables]
    exact h.fresh
  · refine ⟨id, .inl, fun {level' m e'} hold => ?_, fun hnew => ?_, fun w hw => ?_⟩
    · rwa [Radix.setLeaf_leaf_of_ne]
      rintro ⟨rfl, rfl⟩
      rw [hleaf] at hold
      cases hold
    · exact (Radix.setLeaf_leaf_eq_some hnew).symm
    · rw [hmem, Function.update_of_ne]
      rintro rfl
      exact hw a ⟨level, n, hnode⟩ (inTable_slot hi)

/-- A page that is taken before `fin` is new, and what is taken after it is new too. -/
theorem Fresh.newPage {fin s : Mmu A} {t : MmuTree} (h : Fresh t s fin)
    (hfin : (s.newPage pages :: s.tables) <:+ fin.tables) :
    IsSubtableAddress (s.newPage pages) ∧ ¬t.HasTable (s.newPage pages) ∧
      ∃ taken, fin.tables = taken ++ (s.newPage pages :: s.tables) ∧ taken.Nodup ∧
        ∀ a ∈ taken, IsSubtableAddress a ∧ ¬t.HasTable a ∧ a ≠ s.newPage pages := by
  obtain ⟨taken, htaken, hnodup, hnew⟩ := h
  obtain ⟨later, hlater⟩ := hfin
  have hsplit : taken = later ++ [s.newPage pages] := by
    have htables : taken ++ s.tables = (later ++ [s.newPage pages]) ++ s.tables := by
      rw [← htaken, ← hlater, List.append_assoc, List.singleton_append]
    exact List.append_cancel_right htables
  subst hsplit
  rw [List.nodup_append] at hnodup
  obtain ⟨hpage, hold⟩ := hnew (s.newPage pages) (by simp)
  refine ⟨hpage, hold, later, hlater.symm, hnodup.1, fun a ha => ?_⟩
  obtain ⟨hpage', hold'⟩ := hnew a (by simp [ha])
  exact ⟨hpage', hold', hnodup.2.2 a ha _ (by simp)⟩

/-- After a page is taken for a table of the tree, what is taken later is new still. -/
theorem Fresh.addTable {fin s s' : Mmu A} {t t' : MmuTree} (h : Fresh t s fin)
    (hfin : (s.newPage pages :: s.tables) <:+ fin.tables)
    (htables : s'.tables = s.newPage pages :: s.tables)
    (hadded : ∀ a, t'.HasTable a → t.HasTable a ∨ a = s.newPage pages) : Fresh t' s' fin := by
  obtain ⟨-, -, taken, htaken, hnodup, hlater⟩ := h.newPage hfin
  refine ⟨taken, by rw [htables, htaken], hnodup, fun a ha => ?_⟩
  obtain ⟨hpage, hold, hne⟩ := hlater a ha
  exact ⟨hpage, fun hhas => (hadded a hhas).elim hold hne⟩

/-- `memory_mmu_create_table` with the descriptor that links the table. -/
def linkTable (pages : PageHeap A) (s : Mmu A) (table idx level : Nat) : Mmu A :=
  (s.memoryMmuCreateTable pages).2.mmuCreateTableEntry table idx level
    (setKernelSpace (s.newPage pages))

/-- The step that links a new table from an empty slot. -/
theorem Holds.addNode {fin s : Mmu A} {root level n a i : Nat} {t : MmuTree}
    (h : Holds fin root s t) (hnode : t.node level n = some a) (hi : i < 512) (hlevel : level < 3)
    (hleaf : t.leaf level (n * 512 + i) = none) (hbelow : t.node (level + 1) (n * 512 + i) = none)
    (hfin : (s.newPage pages :: s.tables) <:+ fin.tables) :
    Holds fin root (s.linkTable pages (setKernelSpace a) i level)
        (t.addNode (level + 1) (n * 512 + i) (s.newPage pages)) ∧
      Grown s t (s.linkTable pages (setKernelSpace a) i level)
        (t.addNode (level + 1) (n * 512 + i) (s.newPage pages))
        (fun level' m => level' = level + 1 ∧ m = n * 512 + i) (fun _ _ _ => False) := by
  have ha : IsTableAddress a := h.tree.address hnode
  obtain ⟨hpage, hold, -⟩ := h.fresh.newPage hfin
  have hmem : (s.linkTable pages (setKernelSpace a) i level).mem =
      Function.update (s.memoryMmuCreateTable pages).2.mem (a / 8 + i)
        (mmuTableEntryBits (setKernelSpace (s.newPage pages))) := by
    rw [linkTable, mmuCreateTableEntry, write_mem ha]
    rfl
  refine ⟨⟨?_, h.fresh.addTable hfin rfl fun b => (MmuTree.hasTable_addNode hbelow).mp⟩, ?_⟩
  · rw [hmem]
    refine h.tree.addNode hnode hi hlevel hleaf hbelow hpage hold (fun w hw => ?_) fun w hw => ?_
    · rw [createTable_mem hpage.table, if_pos hw]
    · rw [createTable_mem hpage.table, if_neg hw]
  · refine ⟨fun hnode' => Radix.addNode_node_of_some hbelow hnode', fun hnode' => ?_, id, .inl,
      fun w hw => ?_⟩
    · exact (Radix.addNode_node_eq_some hnode').symm.imp id fun ⟨hl, hn, _⟩ => ⟨hl, hn⟩
    · have hslot : w ≠ a / 8 + i := by
        rintro rfl
        exact hw a ⟨level, n, Radix.addNode_node_of_some hbelow hnode⟩ (inTable_slot hi)
      have hnew : ¬InTable (s.newPage pages) w := hw _ ⟨level + 1, _, Radix.addNode_node_self⟩
      rw [hmem, Function.update_of_ne hslot, createTable_mem hpage.table, if_neg hnew]

/-! ## The descent -/

@[simp] theorem assert_true (s : Mmu A) : s.assert true = s := by
  simp [Mmu.assert]

/-- The descent for `va` stands at the table of a level that `va` goes through. -/
structure DescentAt (t : MmuTree) (d : Descent A) (level va : Nat) : Prop where
  table : ∃ a, t.node level (slotNumber level va / 512) = some a ∧ d.table = setKernelSpace a
  slot : d.address / regionSize level = slotNumber level va % 512
  rest : d.address % regionSize level = va % regionSize level

theorem DescentAt.start {t : MmuTree} {root va : Nat} (hroot : t.node 0 0 = some root)
    (hva : va < 2 ^ 48) (s : Mmu A) : DescentAt t ⟨setKernelSpace root, va, s⟩ 0 va := by
  have hslot : slotNumber 0 va < 512 := by
    simp only [slotNumber, regionSize]
    omega
  refine ⟨⟨root, ?_, rfl⟩, ?_, rfl⟩
  · rw [Nat.div_eq_of_lt hslot, hroot]
  · rw [Nat.mod_eq_of_lt hslot]
    rfl

/-- The rest of an address in its region gives the slot one level down. -/
theorem DescentAt.below {t : MmuTree} {d d' : Descent A} {level va a : Nat}
    (h : DescentAt t d level va) (hlevel : level < 3) {t' : MmuTree}
    (hnode : t'.node (level + 1) (slotNumber level va) = some a) (htable : d'.table = setKernelSpace a)
    (haddress : d'.address = d.address % regionSize level) : DescentAt t' d' (level + 1) va := by
  have hsize := regionSize_succ hlevel
  refine ⟨⟨a, ?_, htable⟩, ?_, ?_⟩
  · rw [slotNumber_path va level hlevel, hnode]
  · rw [haddress, h.rest, hsize, Nat.mul_comm, Nat.mod_mul_right_div_self, slotNumber]
  · rw [haddress, h.rest, Nat.mod_mod_of_dvd _ (Dvd.intro_left _ hsize.symm)]

/-- `mmu_get_subtable` of a table descriptor: the assertions hold. -/
theorem getSubtable_eq {s : Mmu A} {table idx level b : Nat} (hlevel : level ≠ 3)
    (hb : IsSubtableAddress b) (hread : s.read table idx = mmuTableEntryBits (setKernelSpace b)) :
    s.mmuGetSubtable table idx level = (setKernelSpace b, s) := by
  have hmmu : mmuType (mmuTableEntryBits (setKernelSpace b)) = mmuTableEntry :=
    (mmuType_eq _).trans (tableEntry_type _)
  simp only [mmuGetSubtable, hread, hmmu, getNextLevelTable_tableEntry hb, hlevel, ne_eq, not_false_eq_true, decide_true,
    assert_true]

theorem descend_of_table {s : Mmu A} {table address level b : Nat}
    (hlevel : level < 3) (hslot : address / regionSize level < 512) (hb : IsSubtableAddress b)
    (hread : s.read table (address / regionSize level) = mmuTableEntryBits (setKernelSpace b)) :
    descend pages level ⟨table, address, s⟩ = ⟨setKernelSpace b, address % regionSize level, s⟩ := by
  have hsize := regionSize_eq (Nat.le_of_lt hlevel)
  have htype := tableEntry_type (setKernelSpace b)
  have hvalid : mmuEntryValid (mmuTableEntryBits (setKernelSpace b)) = true := by
    rw [mmuEntryValid_eq, decide_eq_true_iff]
    omega
  have hdesc : mmuEntryDescriptor (mmuTableEntryBits (setKernelSpace b)) = true := by
    rw [mmuEntryDescriptor_eq, decide_eq_true_iff]
    omega
  have hsubtable := getSubtable_eq (Nat.ne_of_lt hlevel) hb hread
  simp only [descend, hsize, u32_of_lt (by omega : address / regionSize level < 2 ^ 32), hread, hvalid,
    hdesc, hsubtable, Bool.not_true, Bool.false_eq_true, if_true, if_false]

theorem descend_of_empty {s : Mmu A} {table address level : Nat} (hlevel : level < 3)
    (hslot : address / regionSize level < 512) (hread : s.read table (address / regionSize level) = 0) :
    descend pages level ⟨table, address, s⟩ =
      ⟨setKernelSpace (s.newPage pages), address % regionSize level,
        s.linkTable pages table (address / regionSize level) level⟩ := by
  have hsize := regionSize_eq (Nat.le_of_lt hlevel)
  have hvalid : mmuEntryValid 0 = false := by decide
  simp only [descend, hsize, u32_of_lt (by omega : address / regionSize level < 2 ^ 32), hread, hvalid,
    Bool.not_false, if_true]
  rfl

/-- One round of the descent adds at most the table it goes to. -/
theorem descend_spec {fin : Mmu A} {root level va : Nat} {d : Descent A} {t : MmuTree}
    (h : Holds fin root d.mmu t) (hd : DescentAt t d level va) (hlevel : level < 3)
    (hleaf : t.leaf level (slotNumber level va) = none)
    (hfin : (descend pages level d).mmu.tables <:+ fin.tables) :
    ∃ t', Holds fin root (descend pages level d).mmu t' ∧
      Grown d.mmu t (descend pages level d).mmu t'
        (fun l n => l = level + 1 ∧ n = slotNumber level va) (fun _ _ _ => False) ∧
      DescentAt t' (descend pages level d) (level + 1) va := by
  obtain ⟨table, address, s⟩ := d
  obtain ⟨a, hnode, rfl⟩ := hd.table
  have ha := h.tree.address hnode
  have hi : slotNumber level va % 512 < 512 := Nat.mod_lt _ (by decide)
  have hnumber : slotNumber level va / 512 * 512 + slotNumber level va % 512 = slotNumber level va :=
    Nat.div_add_mod' _ _
  have hslot : address / regionSize level = slotNumber level va % 512 := hd.slot
  have hread : s.read (setKernelSpace a) (address / regionSize level) =
      s.mem (a / 8 + slotNumber level va % 512) := by
    rw [read_eq ha, hslot]
  cases hbelow : t.node (level + 1) (slotNumber level va) with
  | some b =>
    have hword := h.tree.word_of_node hnode hi (by rw [hnumber, hbelow])
    rw [descend_of_table hlevel (hslot ▸ hi) (h.tree.subtableAddress hbelow) (hread.trans hword)]
    exact ⟨t, h, .refl _ _, hd.below hlevel hbelow rfl rfl⟩
  | none =>
    have hword := h.tree.word_of_empty hnode hi (by rw [hnumber, hleaf]) (by rw [hnumber, hbelow])
    rw [descend_of_empty hlevel (hslot ▸ hi) (hread.trans hword)] at hfin ⊢
    have hstep := h.addNode hnode hi hlevel (by rw [hnumber, hleaf]) (by rw [hnumber, hbelow]) hfin
    rw [hnumber, ← hslot] at hstep
    exact ⟨_, hstep.1, hstep.2, hd.below hlevel Radix.addNode_node_self rfl rfl⟩

/-- The tables a descent from `level` by `n` levels may add. -/
def OnWay (va level n l m : Nat) : Prop := level < l ∧ l ≤ level + n ∧ m = slotNumber l va / 512

/-- The whole descent, over a path without leaves. -/
theorem descent_spec {fin : Mmu A} {root va : Nat} {n level : Nat} {d : Descent A} {t : MmuTree}
    (h : Holds fin root d.mmu t) (hd : DescentAt t d level va) (hlevel : level + n ≤ 3)
    (hleaf : ∀ l, level ≤ l → l < level + n → t.leaf l (slotNumber l va) = none)
    (hfin : (forRange (descend pages) n level d).mmu.tables <:+ fin.tables) :
    ∃ t', Holds fin root (forRange (descend pages) n level d).mmu t' ∧
      Grown d.mmu t (forRange (descend pages) n level d).mmu t' (OnWay va level n)
        (fun _ _ _ => False) ∧
      DescentAt t' (forRange (descend pages) n level d) (level + n) va := by
  induction n generalizing level d t with
  | zero => exact ⟨t, h, .refl _ _, hd⟩
  | succ n ih =>
    have hrest := descent_recordedIn pages n (level + 1) (descend pages level d)
    obtain ⟨t₁, h₁, hgrown₁, hd₁⟩ := descend_spec h hd (by omega) (hleaf level (Nat.le_refl _) (by omega))
      (hrest.tables.trans hfin)
    obtain ⟨t₂, h₂, hgrown₂, hd₂⟩ := ih h₁ hd₁ (by omega)
      (fun l hlo hhi => hgrown₁.leaf_none (hleaf l (by omega) (by omega)) fun _ => id) hfin
    refine ⟨t₂, h₂, hgrown₁.trans hgrown₂ ?_ ?_ id id, by rwa [Nat.add_right_comm] at hd₂⟩
    · rintro l m ⟨rfl, rfl⟩
      exact ⟨by omega, by omega, (slotNumber_path va level (by omega)).symm⟩
    · rintro l m ⟨hlo, hhi, hm⟩
      exact ⟨by omega, by omega, hm⟩

/-- `mmu_traverse_and_alloc_tables` from the root arrives at the slot of `va`. -/
theorem traverse_spec {fin s : Mmu A} {root va dest : Nat} {t : MmuTree} (h : Holds fin root s t)
    (hva : va < 2 ^ 48) (hdest : dest ≤ 3) (hleaf : ∀ l < dest, t.leaf l (slotNumber l va) = none)
    (hfin : (s.mmuTraverseAndAllocTables pages (setKernelSpace root) 0 va dest).2.tables <:+ fin.tables) :
    ∃ t' a, Holds fin root (s.mmuTraverseAndAllocTables pages (setKernelSpace root) 0 va dest).2 t' ∧
      Grown s t (s.mmuTraverseAndAllocTables pages (setKernelSpace root) 0 va dest).2 t'
        (OnWay va 0 dest) (fun _ _ _ => False) ∧
      t'.node dest (slotNumber dest va / 512) = some a ∧
      (s.mmuTraverseAndAllocTables pages (setKernelSpace root) 0 va dest).1 =
        ⟨setKernelSpace a, slotNumber dest va % 512, dest⟩ := by
  have hroot : t.node 0 0 = some root := by rw [h.tree.root_node, if_pos rfl]
  simp only [mmuTraverseAndAllocTables, Nat.zero_max, Nat.sub_zero] at hfin ⊢
  obtain ⟨t', h', hgrown, hd⟩ := descent_spec h (.start hroot hva s) (by omega)
    (fun l _ hl => hleaf l (by omega)) hfin
  rw [Nat.zero_add] at hd
  obtain ⟨a, hnode, htable⟩ := hd.table
  refine ⟨t', a, h', hgrown, hnode, ?_⟩
  have hi : slotNumber dest va % 512 < 512 := Nat.mod_lt _ (by decide)
  rw [htable, regionSize_eq hdest, hd.slot, u32_of_lt (by omega)]

end Mmu
end PiVOS
