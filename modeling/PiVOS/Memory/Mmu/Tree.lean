-- SUMMARY: Radix trees of translation tables in memory, and the walk as a lookup in them.
import PiVOS.Lib.Radix
import PiVOS.Memory.Mmu
import PiVOS.Memory.Mmu.Walk

/-!
# Trees of tables

A root and the tables below it are a radix tree of fan-out 512: a node is the
physical address of a table, a leaf is a block or page descriptor. `HoldsTree`
says that memory holds such a tree. The table code makes three kinds of
changes: a table descriptor for a new table, a leaf, and a table in place of a leaf.
-/

namespace PiVOS

/-- Tables by level and number, and the descriptors in their slots. -/
abbrev MmuTree := Radix Nat Nat

/-- A descriptor that ends a walk on its level. -/
def IsLeafEntry (level entry : Nat) : Prop :=
  (level = 1 ∨ level = 2) ∧ entry % 4 = 1 ∨ level = 3 ∧ entry % 4 = 3

/-- The address of a table. -/
def IsTableAddress (a : Nat) : Prop := a % 4096 = 0 ∧ a < 2 ^ 48

/-- The address of a table that is linked from another: `mmu_get_subtable` finds it again
below 64 GB only. -/
def IsSubtableAddress (a : Nat) : Prop := a % 4096 = 0 ∧ a < 2 ^ 36

theorem IsSubtableAddress.table {a : Nat} (h : IsSubtableAddress a) : IsTableAddress a :=
  ⟨h.1, h.2.trans (by decide)⟩

/-- The words of the table at `a`. -/
def InTable (a w : Nat) : Prop := a / 8 ≤ w ∧ w < a / 8 + 512

instance (a w : Nat) : Decidable (InTable a w) := inferInstanceAs (Decidable (_ ∧ _))

namespace MmuTree

/-- What stands in a slot of the table `m / 512` of a level. -/
def slotWord (t : MmuTree) (level m : Nat) : Nat :=
  match t.leaf level m with
  | some e => e
  | none =>
    match t.node (level + 1) m with
    | some a => mmuTableEntryBits (setKernelSpace a)
    | none => mmuEmptyEntry

/-- The table at `a` belongs to the tree. -/
def HasTable (t : MmuTree) (a : Nat) : Prop := ∃ level n, t.node level n = some a

theorem hasTable_addNode {t : MmuTree} {level n a b : Nat} (hfree : t.node level n = none) :
    HasTable (t.addNode level n a) b ↔ t.HasTable b ∨ b = a := by
  constructor
  · rintro ⟨level', n', hnode⟩
    exact (Radix.addNode_node_eq_some hnode).symm.imp (fun hold => ⟨level', n', hold⟩) (·.2.2)
  · rintro (⟨level', n', hnode⟩ | rfl)
    · exact ⟨level', n', Radix.addNode_node_of_some hfree hnode⟩
    · exact ⟨level, n, Radix.addNode_node_self⟩

end MmuTree

open MmuTree

/-- The tree lies in memory, where the code can follow it. -/
structure HoldsTree (mem : Nat → Nat) (root : Nat) (t : MmuTree) : Prop where
  wellFormed : t.WellFormed 512
  root_node : ∀ n, t.node 0 n = if n = 0 then some root else none
  depth : ∀ {level n a}, t.node level n = some a → level ≤ 3
  leaf_entry : ∀ {level m e}, t.leaf level m = some e → IsLeafEntry level e
  address : ∀ {level n a}, t.node level n = some a → IsTableAddress a
  linked : ∀ {level n a}, t.node (level + 1) n = some a → a < 2 ^ 36
  apart : ∀ {level n level' n' a}, t.node level n = some a → t.node level' n' = some a →
    level = level' ∧ n = n'
  word : ∀ {level n a}, t.node level n = some a → ∀ i < 512,
    mem (a / 8 + i) = t.slotWord level (n * 512 + i)

/-! ## Addresses and slots -/

theorem slotNumber_path (va : Nat) : Radix.Path 512 3 (slotNumber · va) := by
  intro l hl
  have hcases : l = 0 ∨ l = 1 ∨ l = 2 := by omega
  rcases hcases with rfl | rfl | rfl <;> simp only [slotNumber, regionSize] <;> omega

theorem regionSize_eq {level : Nat} (h : level ≤ 3) :
    mmuSizeOfLevelRegion level = regionSize level := mmuSizeOfLevelRegion_eq h

theorem regionSize_pos (level : Nat) : 0 < regionSize level := Nat.two_pow_pos _

theorem regionSize_succ {level : Nat} (h : level < 3) :
    regionSize level = 512 * regionSize (level + 1) := by
  have hcases : level = 0 ∨ level = 1 ∨ level = 2 := by omega
  rcases hcases with rfl | rfl | rfl <;> rfl

theorem IsTableAddress.page {a : Nat} (h : IsTableAddress a) : a / 8 * 8 = a ∧ a / 8 % 512 = 0 := by
  obtain ⟨h, -⟩ := h
  omega

/-- Two tables with a word in common are the same. -/
theorem IsTableAddress.eq_of_inTable {a b w : Nat} (ha : IsTableAddress a) (hb : IsTableAddress b)
    (hwa : InTable a w) (hwb : InTable b w) : a = b := by
  obtain ⟨ha, -⟩ := ha
  obtain ⟨hb, -⟩ := hb
  unfold InTable at hwa hwb
  omega

theorem inTable_slot {a i : Nat} (hi : i < 512) : InTable a (a / 8 + i) :=
  ⟨Nat.le_add_right _ _, by omega⟩

@[simp] theorem tableEntry_type (a : Nat) : mmuTableEntryBits a % 4 = 3 := by
  simp only [mmuTableEntryBits, mmuTableEntry]
  omega

theorem nextTable_tableEntry {a : Nat} (h : IsTableAddress a) :
    nextTable (mmuTableEntryBits (setKernelSpace a)) = a := by
  obtain ⟨hpage, hlt⟩ := h
  rw [setKernelSpace_of_lt hlt]
  simp only [nextTable, mmuTableEntryBits, mmuTableEntry, kernelSpaceMask]
  omega

/-- The code's own reading of a table descriptor, which stops short of 64 GB. -/
theorem getNextLevelTable_tableEntry {a : Nat} (h : IsSubtableAddress a) :
    mmuGetNextLevelTableFromTableEntry (mmuTableEntryBits (setKernelSpace a)) = a := by
  obtain ⟨hpage, hlt⟩ := h
  rw [setKernelSpace_of_lt (hlt.trans (by decide))]
  simp only [mmuGetNextLevelTableFromTableEntry, wideShiftLeft, bitField, mmuTableEntryBits, mmuTableEntry,
    kernelSpaceMask]
  omega

theorem IsLeafEntry.valid {level e : Nat} (h : IsLeafEntry level e) : e % 2 = 1 := by
  rcases h with ⟨-, h⟩ | ⟨-, h⟩ <;> omega

/-! ## The walk -/

namespace HoldsTree

variable {mem : Nat → Nat} {root : Nat} {t : MmuTree}

theorem word_of_leaf (h : HoldsTree mem root t) {level n a i e : Nat}
    (hnode : t.node level n = some a) (hi : i < 512) (hleaf : t.leaf level (n * 512 + i) = some e) :
    mem (a / 8 + i) = e := by
  rw [h.word hnode i hi, slotWord, hleaf]

theorem word_of_node (h : HoldsTree mem root t) {level n a i b : Nat}
    (hnode : t.node level n = some a) (hi : i < 512)
    (hbelow : t.node (level + 1) (n * 512 + i) = some b) :
    mem (a / 8 + i) = mmuTableEntryBits (setKernelSpace b) := by
  have hleaf : t.leaf level (n * 512 + i) = none := by
    cases hleaf : t.leaf level (n * 512 + i) with
    | none => rfl
    | some e =>
      rw [h.wellFormed.leaf_end hleaf] at hbelow
      cases hbelow
  rw [h.word hnode i hi, slotWord, hleaf, hbelow]

theorem word_of_empty (h : HoldsTree mem root t) {level n a i : Nat}
    (hnode : t.node level n = some a) (hi : i < 512)
    (hleaf : t.leaf level (n * 512 + i) = none) (hbelow : t.node (level + 1) (n * 512 + i) = none) :
    mem (a / 8 + i) = 0 := by
  rw [h.word hnode i hi, slotWord, hleaf, hbelow]
  rfl

theorem subtableAddress (h : HoldsTree mem root t) {level n a : Nat} (hnode : t.node (level + 1) n = some a) :
    IsSubtableAddress a :=
  ⟨(h.address hnode).1, h.linked hnode⟩

/-- Below the tables of pages there is nothing. -/
theorem node_four (h : HoldsTree mem root t) (m : Nat) : t.node 4 m = none := by
  cases hnode : t.node 4 m with
  | none => rfl
  | some b => exact absurd (h.depth hnode) (by decide)

/-- The walk is the lookup of the address's path. -/
theorem walkEntryFrom_eq (h : HoldsTree mem root t) (va : Nat) {levels level a : Nat}
    (hlevels : level + levels = 4) (hnode : t.node level (slotNumber level va / 512) = some a) :
    walkEntryFrom mem levels level a va = t.find (slotNumber · va) levels level := by
  induction levels generalizing level a with
  | zero => rfl
  | succ levels ih =>
    have hslot : slotNumber level va / 512 * 512 + slotNumber level va % 512 = slotNumber level va :=
      Nat.div_add_mod' _ _
    have hi : slotNumber level va % 512 < 512 := Nat.mod_lt _ (by decide)
    simp only [walkEntryFrom, Radix.find]
    cases hleaf : t.leaf level (slotNumber level va) with
    | some e =>
      rw [h.word_of_leaf hnode hi (by rw [hslot, hleaf])]
      rcases h.leaf_entry hleaf with ⟨hlevel, htype⟩ | ⟨rfl, htype⟩
      · have h₁ : ¬e % 2 = 0 := by omega
        have h₂ : ¬e / 2 % 2 = 1 := by omega
        simp only [h₁, h₂, hlevel, if_true, if_false]
      · have h₁ : ¬e % 2 = 0 := by omega
        have h₂ : e / 2 % 2 = 1 := by omega
        simp only [h₁, h₂, if_true, if_false]
    | none =>
      cases hbelow : t.node (level + 1) (slotNumber level va) with
      | some b =>
        rw [h.word_of_node hnode hi (by rw [hslot, hbelow])]
        have hlevel : level < 3 := h.depth hbelow
        have hpath : slotNumber (level + 1) va / 512 = slotNumber level va :=
          slotNumber_path va level hlevel
        have htype := tableEntry_type (setKernelSpace b)
        have h₁ : ¬mmuTableEntryBits (setKernelSpace b) % 2 = 0 := by omega
        have h₂ : mmuTableEntryBits (setKernelSpace b) / 2 % 2 = 1 := by omega
        simp only [h₁, h₂, Nat.ne_of_lt hlevel, if_true, if_false,
          nextTable_tableEntry (h.address hbelow)]
        exact ih (by omega) (by rw [hpath, hbelow])
      | none =>
        rw [h.word_of_empty hnode hi (by rw [hslot, hleaf]) (by rw [hslot, hbelow])]
        rfl

theorem walkEntry_eq (h : HoldsTree mem root t) {va : Nat} (hva : va < 2 ^ 48) :
    walkEntry mem root va = t.find (slotNumber · va) 4 0 := by
  refine h.walkEntryFrom_eq va rfl ?_
  rw [h.root_node, if_pos]
  simp only [slotNumber, regionSize]
  omega

theorem walk_eq (h : HoldsTree mem root t) {va : Nat} (hva : va < 2 ^ 48) :
    walk mem root va =
      (t.find (slotNumber · va) 4 0).map fun (level, e) => translate level e va := by
  rw [walk_eq_map, h.walkEntry_eq hva]

/-- The walk's tables are those of the tree. -/
theorem node_of_walkTable (h : HoldsTree mem root t) {va levels level a b : Nat}
    (hlevels : level + levels ≤ 3)
    (hnode : t.node level (slotNumber level va / 512) = some a)
    (hwalk : walkTable mem levels level a va = some b) :
    t.node (level + levels) (slotNumber (level + levels) va / 512) = some b := by
  induction levels generalizing level a with
  | zero => exact hnode.trans hwalk
  | succ levels ih =>
    have hi : slotNumber level va % 512 < 512 := Nat.mod_lt _ (by decide)
    have hslot : slotNumber level va / 512 * 512 + slotNumber level va % 512 = slotNumber level va :=
      Nat.div_add_mod' _ _
    simp only [walkTable] at hwalk
    split at hwalk
    · rename_i hentry
      cases hbelow : t.node (level + 1) (slotNumber level va) with
      | some c =>
        rw [h.word_of_node hnode hi (by rw [hslot, hbelow]), nextTable_tableEntry (h.address hbelow)] at hwalk
        have hdeep := ih (by omega) (by rw [slotNumber_path va level (by omega), hbelow]) hwalk
        rwa [Nat.add_right_comm] at hdeep
      | none =>
        cases hleaf : t.leaf level (slotNumber level va) with
        | none =>
          rw [h.word_of_empty hnode hi (by rw [hslot, hleaf]) (by rw [hslot, hbelow])] at hentry
          exact absurd hentry.1 (by decide)
        | some e =>
          rw [h.word_of_leaf hnode hi (by rw [hslot, hleaf])] at hentry
          rcases h.leaf_entry hleaf with ⟨-, htype⟩ | ⟨rfl, -⟩
          · omega
          · omega
    · cases hwalk

/-- A walk ends at the leaf on the address's path. -/
theorem walk_of_leaf (h : HoldsTree mem root t) {va level e : Nat} (hva : va < 2 ^ 48)
    (hleaf : t.leaf level (slotNumber level va) = some e) :
    walk mem root va = some (translate level e va) := by
  have hlevel : level ≤ 3 := by
    rcases h.leaf_entry hleaf with ⟨hlevel, -⟩ | ⟨rfl, -⟩ <;> omega
  have hfind : t.find (slotNumber · va) 4 0 = some (level, e) :=
    (h.wellFormed.find_eq_some (slotNumber_path va) (by omega)).mpr ⟨by omega, by omega, hleaf⟩
  rw [h.walk_eq hva, hfind]
  rfl

/-- Without a leaf on its path an address is not mapped. -/
theorem walk_of_no_leaf (h : HoldsTree mem root t) {va : Nat} (hva : va < 2 ^ 48)
    (hleaf : ∀ level, t.leaf level (slotNumber level va) = none) : walk mem root va = none := by
  rw [h.walk_eq hva]
  cases hfind : t.find (slotNumber · va) 4 0 with
  | none => rfl
  | some found =>
    obtain ⟨level, e⟩ := found
    have hfound := (h.wellFormed.find_eq_some (slotNumber_path va) (by omega)).mp hfind
    rw [hleaf] at hfound
    cases hfound.2.2

/-- What happens in one level 3 table matters only to the addresses that go through it. -/
theorem walkFrom_frame (h : HoldsTree mem root t) {mem' : Nat → Nat} {n c va : Nat}
    (hc : t.node 3 n = some c) (hsame : ∀ w, ¬InTable c w → mem' w = mem w)
    (hva : slotNumber 2 va ≠ n) {levels level a : Nat} (hlevels : level + levels = 4)
    (hnode : t.node level (slotNumber level va / 512) = some a) :
    walkFrom mem' levels level a va = walkFrom mem levels level a va := by
  induction levels generalizing level a with
  | zero => rfl
  | succ levels ih =>
    have hi : slotNumber level va % 512 < 512 := Nat.mod_lt _ (by decide)
    have hslot : slotNumber level va / 512 * 512 + slotNumber level va % 512 = slotNumber level va :=
      Nat.div_add_mod' _ _
    have hword : mem' (a / 8 + slotNumber level va % 512) = mem (a / 8 + slotNumber level va % 512) := by
      refine hsame _ fun hin => ?_
      have heq : c = a := (h.address hc).eq_of_inTable (h.address hnode) hin (inTable_slot hi)
      obtain ⟨rfl, hn⟩ := h.apart hc (heq ▸ hnode)
      exact hva ((slotNumber_path va 2 (by decide)).symm.trans hn.symm)
    simp only [walkFrom, hword]
    cases hbelow : t.node (level + 1) (slotNumber level va) with
    | some b =>
      have hlevel : level < 3 := h.depth hbelow
      rw [h.word_of_node hnode hi (by rw [hslot, hbelow]), nextTable_tableEntry (h.address hbelow)]
      rw [ih (by omega) (by rw [slotNumber_path va level hlevel, hbelow])]
    | none =>
      cases hleaf : t.leaf level (slotNumber level va) with
      | none =>
        rw [h.word_of_empty hnode hi (by rw [hslot, hleaf]) (by rw [hslot, hbelow])]
        rfl
      | some e =>
        rw [h.word_of_leaf hnode hi (by rw [hslot, hleaf])]
        rcases h.leaf_entry hleaf with ⟨-, htype⟩ | ⟨rfl, -⟩
        · have h₂ : ¬e / 2 % 2 = 1 := by omega
          simp only [h₂, if_false]
        · simp only [if_true]

theorem walk_frame (h : HoldsTree mem root t) {mem' : Nat → Nat} {n c va : Nat} (hlt : va < 2 ^ 48)
    (hc : t.node 3 n = some c) (hsame : ∀ w, ¬InTable c w → mem' w = mem w)
    (hva : slotNumber 2 va ≠ n) : walk mem' root va = walk mem root va := by
  refine h.walkFrom_frame hc hsame hva rfl ?_
  rw [h.root_node, if_pos]
  simp only [slotNumber, regionSize]
  omega

/-! ## Changes to memory -/

/-- What happens outside its tables leaves a tree alone. -/
theorem frame (h : HoldsTree mem root t) {mem' : Nat → Nat}
    (hmem : ∀ a w, t.HasTable a → InTable a w → mem' w = mem w) : HoldsTree mem' root t := by
  refine { h with word := fun {level n a} hnode i hi => ?_ }
  rw [hmem a _ ⟨level, n, hnode⟩ (inTable_slot hi), h.word hnode i hi]

/-- The words of different slots are different. -/
theorem slot_ne (h : HoldsTree mem root t) {level n a i level' n' a' i' : Nat}
    (hnode : t.node level n = some a) (hi : i < 512) (hnode' : t.node level' n' = some a')
    (hi' : i' < 512) (hne : ¬(level' = level ∧ n' * 512 + i' = n * 512 + i)) :
    a' / 8 + i' ≠ a / 8 + i := by
  intro heq
  have hsame : a' = a := (h.address hnode').eq_of_inTable (h.address hnode) (inTable_slot hi')
    (heq ▸ inTable_slot hi)
  subst hsame
  obtain ⟨rfl, rfl⟩ := h.apart hnode hnode'
  exact hne ⟨rfl, by omega⟩

/-- A descriptor stored in a slot with no table below becomes a leaf. -/
theorem setLeaf (h : HoldsTree mem root t) {level n a i e : Nat} (hnode : t.node level n = some a)
    (hi : i < 512) (hbelow : t.node (level + 1) (n * 512 + i) = none) (he : IsLeafEntry level e) :
    HoldsTree (Function.update mem (a / 8 + i) e) root (t.setLeaf level (n * 512 + i) e) := by
  have hparent : t.node level ((n * 512 + i) / 512) = some a := by
    rw [show (n * 512 + i) / 512 = n by omega, hnode]
  refine
    { wellFormed := h.wellFormed.setLeaf hparent hbelow
      root_node := h.root_node
      depth := h.depth
      leaf_entry := fun hleaf => ?_
      address := h.address
      linked := h.linked
      apart := h.apart
      word := fun {level' n' a'} hnode' i' hi' => ?_ }
  · rcases Radix.setLeaf_leaf_eq_some hleaf with ⟨rfl, -, rfl⟩ | hleaf
    · exact he
    · exact h.leaf_entry hleaf
  · simp only [slotWord, Radix.setLeaf_node]
    by_cases hslot : level' = level ∧ n' * 512 + i' = n * 512 + i
    · obtain ⟨rfl, heq⟩ := hslot
      obtain ⟨rfl, rfl⟩ : n' = n ∧ i' = i := by omega
      obtain rfl : a' = a := Option.some.inj (hnode'.symm.trans hnode)
      rw [Function.update_self, Radix.setLeaf_leaf_self]
    · rw [Function.update_of_ne (h.slot_ne hnode hi hnode' hi' hslot), h.word hnode' i' hi',
        Radix.setLeaf_leaf_of_ne hslot]
      rfl

/-- A cleared page outside the tree, linked from an empty slot, becomes a table. -/
theorem addNode (h : HoldsTree mem root t) {mem' : Nat → Nat} {level n a i b : Nat}
    (hnode : t.node level n = some a) (hi : i < 512) (hlevel : level < 3)
    (hleaf : t.leaf level (n * 512 + i) = none) (hbelow : t.node (level + 1) (n * 512 + i) = none)
    (hb : IsSubtableAddress b) (hfresh : ¬t.HasTable b)
    (hclear : ∀ w, InTable b w → mem' w = 0) (hold : ∀ w, ¬InTable b w → mem' w = mem w) :
    HoldsTree (Function.update mem' (a / 8 + i) (mmuTableEntryBits (setKernelSpace b))) root
      (t.addNode (level + 1) (n * 512 + i) b) := by
  have hparent : t.node level ((n * 512 + i) / 512) = some a := by
    rw [show (n * 512 + i) / 512 = n by omega, hnode]
  have houtside : ∀ {level' n' a' i'}, t.node level' n' = some a' → i' < 512 →
      ¬InTable b (a' / 8 + i') := fun {level' n' a' i'} hnode' hi' hw =>
    hfresh ⟨level', n', by rw [hnode', hb.table.eq_of_inTable (h.address hnode') hw (inTable_slot hi')]⟩
  refine
    { wellFormed := h.wellFormed.addNode hparent hleaf hbelow
      root_node := fun n' => ?_
      depth := fun hnode' => ?_
      leaf_entry := h.leaf_entry
      address := fun hnode' => ?_
      linked := fun hnode' => ?_
      apart := fun hnode' hnode'' => ?_
      word := fun {level' n' a'} hnode' i' hi' => ?_ }
  · rw [Radix.addNode_node_of_ne (by omega), h.root_node]
  · rcases Radix.addNode_node_eq_some hnode' with ⟨rfl, -, -⟩ | hnode'
    · exact hlevel
    · exact h.depth hnode'
  · rcases Radix.addNode_node_eq_some hnode' with ⟨-, -, rfl⟩ | hnode'
    · exact hb.table
    · exact h.address hnode'
  · rcases Radix.addNode_node_eq_some hnode' with ⟨-, -, rfl⟩ | hnode'
    · exact hb.2
    · exact h.linked hnode'
  · rcases Radix.addNode_node_eq_some hnode' with ⟨rfl, rfl, rfl⟩ | hold₁
    · rcases Radix.addNode_node_eq_some hnode'' with ⟨rfl, rfl, -⟩ | hold₂
      · exact ⟨rfl, rfl⟩
      · exact absurd ⟨_, _, hold₂⟩ hfresh
    · rcases Radix.addNode_node_eq_some hnode'' with ⟨-, -, rfl⟩ | hold₂
      · exact absurd ⟨_, _, hold₁⟩ hfresh
      · exact h.apart hold₁ hold₂
  · rcases Radix.addNode_node_eq_some hnode' with ⟨rfl, rfl, rfl⟩ | hnode₁
    · have hne : a' / 8 + i' ≠ a / 8 + i := fun heq =>
        houtside hnode hi (heq ▸ inTable_slot hi')
      have hempty : t.leaf (level + 1) ((n * 512 + i) * 512 + i') = none :=
        h.wellFormed.leaf_eq_none (by rw [← hbelow]; congr 1; omega)
      have hnone : t.node (level + 2) ((n * 512 + i) * 512 + i') = none :=
        h.wellFormed.node_eq_none (by rw [← hbelow]; congr 1; omega)
      rw [Function.update_of_ne hne, hclear _ (inTable_slot hi'), slotWord, Radix.addNode_leaf,
        hempty, Radix.addNode_node_of_ne (by omega), hnone]
      rfl
    · by_cases hslot : level' = level ∧ n' * 512 + i' = n * 512 + i
      · obtain ⟨rfl, heq⟩ := hslot
        obtain ⟨rfl, rfl⟩ : n' = n ∧ i' = i := by omega
        obtain rfl : a' = a := Option.some.inj (hnode₁.symm.trans hnode)
        rw [Function.update_self, slotWord, Radix.addNode_leaf, hleaf, Radix.addNode_node_self]
      · rw [Function.update_of_ne (h.slot_ne hnode hi hnode₁ hi' hslot),
          hold _ (houtside hnode₁ hi'), h.word hnode₁ i' hi', slotWord, slotWord,
          Radix.addNode_leaf, Radix.addNode_node_of_ne (by omega)]

/-- A leaf whose descriptor is cleared is gone. -/
theorem removeLeaf (h : HoldsTree mem root t) {level n a i : Nat} (hnode : t.node level n = some a)
    (hi : i < 512) (hbelow : t.node (level + 1) (n * 512 + i) = none) :
    HoldsTree (Function.update mem (a / 8 + i) mmuEmptyEntry) root
      (t.removeLeaf level (n * 512 + i)) := by
  refine
    { wellFormed := h.wellFormed.removeLeaf
      root_node := h.root_node
      depth := h.depth
      leaf_entry := fun hleaf => h.leaf_entry (Radix.removeLeaf_leaf_eq_some hleaf).2
      address := h.address
      linked := h.linked
      apart := h.apart
      word := fun {level' n' a'} hnode' i' hi' => ?_ }
  simp only [slotWord, Radix.removeLeaf_node]
  by_cases hslot : level' = level ∧ n' * 512 + i' = n * 512 + i
  · obtain ⟨rfl, heq⟩ := hslot
    obtain ⟨rfl, rfl⟩ : n' = n ∧ i' = i := by omega
    obtain rfl : a' = a := Option.some.inj (hnode'.symm.trans hnode)
    rw [Function.update_self, Radix.removeLeaf_leaf_self, hbelow]
  · rw [Function.update_of_ne (h.slot_ne hnode hi hnode' hi' hslot), h.word hnode' i' hi',
      Radix.removeLeaf_leaf_of_ne hslot]
    rfl

/-- A table without tables below it, filled with leaves. -/
theorem fillNode (h : HoldsTree mem root t) {mem' : Nat → Nat} {level n a : Nat} {unit : Nat → Nat}
    (hnode : t.node level n = some a) (hend : ∀ m, m / 512 = n → t.node (level + 1) m = none)
    (hunit : ∀ k, IsLeafEntry level (unit k)) (hfill : ∀ k < 512, mem' (a / 8 + k) = unit k)
    (hold : ∀ w, ¬InTable a w → mem' w = mem w) :
    HoldsTree mem' root (t.fillNode 512 level n unit) := by
  refine
    { wellFormed := h.wellFormed.fillNode hnode hend
      root_node := h.root_node
      depth := h.depth
      leaf_entry := fun hleaf => ?_
      address := h.address
      linked := h.linked
      apart := h.apart
      word := fun {level' n' a'} hnode' i' hi' => ?_ }
  · rcases Radix.fillNode_leaf_eq_some hleaf with ⟨rfl, -, rfl⟩ | hleaf
    · exact hunit _
    · exact h.leaf_entry hleaf
  · simp only [slotWord, Radix.fillNode_node]
    have hnumber : (n' * 512 + i') / 512 = n' := by omega
    by_cases hin : level' = level ∧ n' = n
    · obtain ⟨rfl, rfl⟩ := hin
      obtain rfl : a' = a := Option.some.inj (hnode'.symm.trans hnode)
      rw [hfill i' hi', Radix.fillNode_leaf_of_mem hnumber, show (n' * 512 + i') % 512 = i' by omega]
    · have houtside : ¬InTable a (a' / 8 + i') := fun hw => by
        obtain rfl := (h.address hnode).eq_of_inTable (h.address hnode') hw (inTable_slot hi')
        exact hin (h.apart hnode' hnode)
      rw [hold _ houtside, h.word hnode' i' hi', Radix.fillNode_leaf_of_ne (by rwa [hnumber])]
      rfl

/-- A page outside the tree, filled with the units of a leaf and linked from its slot. -/
theorem splitLeaf (h : HoldsTree mem root t) {mem' : Nat → Nat} {level n a i e b : Nat}
    {unit : Nat → Nat} (hnode : t.node level n = some a) (hi : i < 512) (hlevel : level < 3)
    (hleaf : t.leaf level (n * 512 + i) = some e) (hb : IsSubtableAddress b) (hfresh : ¬t.HasTable b)
    (hunit : ∀ k, IsLeafEntry (level + 1) (unit k))
    (hmem : ∀ w, mem' w = if InTable b w then unit (w - b / 8)
      else if w = a / 8 + i then mmuTableEntryBits (setKernelSpace b) else mem w) :
    HoldsTree mem' root (t.splitLeaf 512 level (n * 512 + i) b unit) := by
  have hbelow : t.node (level + 1) (n * 512 + i) = none := h.wellFormed.leaf_end hleaf
  let cleared : Nat → Nat := fun w =>
    if InTable b w then 0 else Function.update mem (a / 8 + i) mmuEmptyEntry w
  have hlinked : HoldsTree (Function.update cleared (a / 8 + i) (mmuTableEntryBits (setKernelSpace b)))
      root ((t.removeLeaf level (n * 512 + i)).addNode (level + 1) (n * 512 + i) b) :=
    (h.removeLeaf hnode hi hbelow).addNode hnode hi hlevel Radix.removeLeaf_leaf_self hbelow hb hfresh
      (fun w hw => if_pos hw) (fun w hw => if_neg hw)
  refine hlinked.fillNode Radix.addNode_node_self (fun m hm => ?_) hunit (fun k hk => ?_)
    fun w hw => ?_
  · rw [Radix.addNode_node_of_ne (by omega), Radix.removeLeaf_node]
    exact h.wellFormed.node_eq_none (by rw [hm, hbelow])
  · rw [hmem, if_pos (inTable_slot hk), Nat.add_sub_cancel_left]
  · rw [hmem, if_neg hw, Function.update_apply]
    by_cases heq : w = a / 8 + i
    · rw [if_pos heq, if_pos heq]
    · rw [if_neg heq, if_neg heq]
      exact ((if_neg hw).trans (Function.update_of_ne heq _ _)).symm

end HoldsTree

/-- The tree of a root without entries. -/
def MmuTree.bare (root : Nat) : MmuTree :=
  { node := fun level n => if level = 0 ∧ n = 0 then some root else none, leaf := fun _ _ => none }

theorem MmuTree.bare_node_eq_some {root level n a : Nat} :
    (MmuTree.bare root).node level n = some a ↔ level = 0 ∧ n = 0 ∧ a = root := by
  simp only [MmuTree.bare]
  constructor
  · intro h
    split at h
    · rename_i heq
      exact ⟨heq.1, heq.2, (Option.some.inj h).symm⟩
    · cases h
  · rintro ⟨rfl, rfl, rfl⟩
    rfl

theorem HoldsTree.bare {mem : Nat → Nat} {root : Nat} (hroot : IsTableAddress root)
    (hclear : ∀ w, InTable root w → mem w = 0) : HoldsTree mem root (MmuTree.bare root) := by
  constructor
  · constructor
    · intro l n a h
      have := MmuTree.bare_node_eq_some.mp h
      omega
    · rintro l m e ⟨⟩
    · rintro l m e ⟨⟩
  · intro n
    simp [MmuTree.bare]
  · intro level n a h
    have := MmuTree.bare_node_eq_some.mp h
    omega
  · rintro level m e ⟨⟩
  · intro level n a h
    obtain ⟨-, -, rfl⟩ := MmuTree.bare_node_eq_some.mp h
    exact hroot
  · intro level n a h
    have := MmuTree.bare_node_eq_some.mp h
    omega
  · intro level n level' n' a h h'
    have := MmuTree.bare_node_eq_some.mp h
    have := MmuTree.bare_node_eq_some.mp h'
    omega
  · intro level n a h i hi
    obtain ⟨rfl, rfl, rfl⟩ := MmuTree.bare_node_eq_some.mp h
    rw [hclear _ (inTable_slot hi)]
    rfl

/-! ## A tree with pages and blocks -/

/-- Four tables, each in the first slot of the one above. -/
def MmuTree.mixedTables : MmuTree :=
  (((bare 0x1000).addNode 1 0 0x2000).addNode 2 0 0x3000).addNode 3 0 0x4000

/-- The first 2 MB have a page at each end; the second and the last 2 MB of the first
gigabyte are blocks. -/
def MmuTree.mixed : MmuTree :=
  (((mixedTables.setLeaf 3 0 (mmuPageEntryBits 0x10000 0)).setLeaf 3 511
    (mmuPageEntryBits 0x11000 1)).setLeaf 2 1 (mmuBlockEntryBits 2 0x600000 0)).setLeaf 2 511
    (mmuBlockEntryBits 2 0x800000 1)

/-- The tables of `mixed` without pages and blocks. -/
def mixedTablesMem : Nat → Nat :=
  Function.update (Function.update (Function.update (fun _ => 0)
    (0x1000 / 8 + 0) (mmuTableEntryBits (setKernelSpace 0x2000)))
    (0x2000 / 8 + 0) (mmuTableEntryBits (setKernelSpace 0x3000)))
    (0x3000 / 8 + 0) (mmuTableEntryBits (setKernelSpace 0x4000))

def mixedMem : Nat → Nat :=
  Function.update (Function.update (Function.update (Function.update mixedTablesMem
    (0x4000 / 8 + 0) (mmuPageEntryBits 0x10000 0))
    (0x4000 / 8 + 511) (mmuPageEntryBits 0x11000 1))
    (0x3000 / 8 + 1) (mmuBlockEntryBits 2 0x600000 0))
    (0x3000 / 8 + 511) (mmuBlockEntryBits 2 0x800000 1)

/-- A page that memory holds cleared, linked from the first slot of the last table, becomes a table. -/
theorem HoldsTree.linkClear {mem : Nat → Nat} {root level a b : Nat} {t : MmuTree}
    (h : HoldsTree mem root t) (hnode : t.node level 0 = some a) (hlevel : level < 3)
    (hleaf : t.leaf level 0 = none) (hb : IsSubtableAddress b)
    (hlow : ∀ {level' n' a'}, t.node level' n' = some a' → level' ≤ level ∧ a' < b)
    (hclear : ∀ w, InTable b w → mem w = 0) :
    HoldsTree (Function.update mem (a / 8 + 0) (mmuTableEntryBits (setKernelSpace b))) root
      (t.addNode (level + 1) 0 b) := by
  have hfree : t.node (level + 1) 0 = none := by
    cases hnode' : t.node (level + 1) 0 with
    | none => rfl
    | some c => exact absurd (hlow hnode').1 (Nat.not_succ_le_self level)
  have hfresh : ¬t.HasTable b := fun ⟨level', n', hnode'⟩ => Nat.lt_irrefl b (hlow hnode').2
  exact h.addNode hnode (by decide) hlevel hleaf hfree hb hfresh hclear fun _ _ => rfl

theorem holdsTree_mixedTables : HoldsTree mixedTablesMem 0x1000 MmuTree.mixedTables := by
  have hbare : HoldsTree (fun _ => 0) 0x1000 (MmuTree.bare 0x1000) :=
    .bare ⟨by decide, by decide⟩ fun _ _ => rfl
  have hlow₀ : ∀ {level n a}, (MmuTree.bare 0x1000).node level n = some a → level ≤ 0 ∧ a < 0x2000 := by
    intro level n a h
    obtain ⟨rfl, rfl, rfl⟩ := MmuTree.bare_node_eq_some.mp h
    decide
  have hlow₁ : ∀ {level n a}, ((MmuTree.bare 0x1000).addNode 1 0 0x2000).node level n = some a →
      level ≤ 1 ∧ a < 0x3000 := by
    intro level n a h
    rcases Radix.addNode_node_eq_some h with ⟨rfl, -, rfl⟩ | h
    · decide
    · have := hlow₀ h
      omega
  have hlow₂ : ∀ {level n a},
      (((MmuTree.bare 0x1000).addNode 1 0 0x2000).addNode 2 0 0x3000).node level n = some a →
      level ≤ 2 ∧ a < 0x4000 := by
    intro level n a h
    rcases Radix.addNode_node_eq_some h with ⟨rfl, -, rfl⟩ | h
    · decide
    · have := hlow₁ h
      omega
  refine HoldsTree.linkClear (HoldsTree.linkClear (HoldsTree.linkClear hbare rfl (by decide) rfl
    ⟨by decide, by decide⟩ hlow₀ fun _ _ => rfl) rfl (by decide) rfl ⟨by decide, by decide⟩ hlow₁
    fun w hw => ?_) rfl (by decide) rfl ⟨by decide, by decide⟩ hlow₂ fun w hw => ?_
  · unfold InTable at hw
    rw [Function.update_of_ne (by omega)]
  · unfold InTable at hw
    rw [Function.update_of_ne (by omega), Function.update_of_ne (by omega)]

theorem holdsTree_mixed : HoldsTree mixedMem 0x1000 MmuTree.mixed := by
  have hfour : ∀ m, MmuTree.mixedTables.node 4 m = none := holdsTree_mixedTables.node_four
  have hpage : ∀ address memoryType, IsLeafEntry 3 (mmuPageEntryBits address memoryType) :=
    fun address memoryType => .inr ⟨rfl, by rw [mmuPageEntryBits_eq]; omega⟩
  have hblock : ∀ address memoryType, IsLeafEntry 2 (mmuBlockEntryBits 2 address memoryType) :=
    fun address memoryType => .inl ⟨.inr rfl, by rw [mmuBlockEntryBits_two]; omega⟩
  have hfirst : HoldsTree _ 0x1000 (MmuTree.mixedTables.setLeaf 3 (0 * 512 + 0) _) :=
    holdsTree_mixedTables.setLeaf rfl (by decide) (hfour _) (hpage 0x10000 0)
  have hpages : HoldsTree _ 0x1000 ((MmuTree.mixedTables.setLeaf 3 (0 * 512 + 0) _).setLeaf 3
      (0 * 512 + 511) _) :=
    hfirst.setLeaf rfl (by decide) (hfour 511) (hpage 0x11000 1)
  have hsecond : HoldsTree _ 0x1000 (((MmuTree.mixedTables.setLeaf 3 (0 * 512 + 0) _).setLeaf 3
      (0 * 512 + 511) _).setLeaf 2 (0 * 512 + 1) _) :=
    hpages.setLeaf rfl (by decide) rfl (hblock 0x600000 0)
  exact hsecond.setLeaf (n := 0) (i := 511) rfl (by decide) rfl (hblock 0x800000 1)

theorem MmuTree.mixed_node_eq_some {level n a : Nat} (h : mixed.node level n = some a) :
    level ≤ 3 ∧ n = 0 ∧ a = 0x1000 + level * 0x1000 := by
  rcases Radix.addNode_node_eq_some h with ⟨rfl, rfl, rfl⟩ | h
  · decide
  rcases Radix.addNode_node_eq_some h with ⟨rfl, rfl, rfl⟩ | h
  · decide
  rcases Radix.addNode_node_eq_some h with ⟨rfl, rfl, rfl⟩ | h
  · decide
  obtain ⟨rfl, rfl, rfl⟩ := bare_node_eq_some.mp h
  decide

theorem MmuTree.mixed_leaf_eq_some {level m e : Nat} (h : mixed.leaf level m = some e) :
    (level = 2 ∧ (m = 511 ∧ e = mmuBlockEntryBits 2 0x800000 1 ∨
      m = 1 ∧ e = mmuBlockEntryBits 2 0x600000 0)) ∨
    (level = 3 ∧ (m = 511 ∧ e = mmuPageEntryBits 0x11000 1 ∨
      m = 0 ∧ e = mmuPageEntryBits 0x10000 0)) := by
  rcases Radix.setLeaf_leaf_eq_some h with ⟨rfl, rfl, rfl⟩ | h
  · exact .inl ⟨rfl, .inl ⟨rfl, rfl⟩⟩
  rcases Radix.setLeaf_leaf_eq_some h with ⟨rfl, rfl, rfl⟩ | h
  · exact .inl ⟨rfl, .inr ⟨rfl, rfl⟩⟩
  rcases Radix.setLeaf_leaf_eq_some h with ⟨rfl, rfl, rfl⟩ | h
  · exact .inr ⟨rfl, .inl ⟨rfl, rfl⟩⟩
  rcases Radix.setLeaf_leaf_eq_some h with ⟨rfl, rfl, rfl⟩ | h
  · exact .inr ⟨rfl, .inr ⟨rfl, rfl⟩⟩
  · cases h


end PiVOS
