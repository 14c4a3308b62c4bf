-- SUMMARY: Links between tables outlast the table code, whatever state it starts from.
import PiVOS.Memory.Mmu.MapOver

/-!
# Links that stay

The code stores into slots that are empty, gives descriptors another memory type,
and puts a table in place of a block. So a descriptor of a table keeps leading to
that table, except in a page that is taken and cleared for a new table. This holds
in any state, also in one whose tables no longer form a tree.
-/

namespace PiVOS
namespace Mmu

variable {A : Type} {pages : PageHeap A} {kind : UnitKind A}

/-- The words of a page taken for a table. -/
def InPage (a w : Nat) : Prop :=
  wordOf (setKernelSpace a) 0 ≤ w ∧ w < wordOf (setKernelSpace a) 512

instance (a w : Nat) : Decidable (InPage a w) := inferInstanceAs (Decidable (_ ∧ _))

theorem inPage_iff {a w : Nat} (ha : IsTableAddress a) : InPage a w ↔ InTable a w := by
  rw [InPage, wordOf_setKernelSpace ha, wordOf_setKernelSpace ha, InTable, Nat.add_zero]

/-- From `s` to `s'` links outside the pages taken for tables keep their target. -/
def Keeps (s s' : Mmu A) : Prop :=
  ∃ taken, s'.tables = taken ++ s.tables ∧ ∀ w, (∀ a ∈ taken, ¬InPage a w) →
    s.mem w % 4 = 3 → s'.mem w % 4 = 3 ∧ nextTable (s'.mem w) = nextTable (s.mem w)

namespace Keeps

theorem of_words {s s' : Mmu A} (htables : s'.tables = s.tables)
    (h : ∀ w, s.mem w % 4 = 3 → s'.mem w % 4 = 3 ∧ nextTable (s'.mem w) = nextTable (s.mem w)) :
    Keeps s s' :=
  ⟨[], htables, fun w _ => h w⟩

theorem of_mem_eq {s s' : Mmu A} (htables : s'.tables = s.tables) (hmem : s'.mem = s.mem) :
    Keeps s s' :=
  .of_words htables fun w hw => by rw [hmem]; exact ⟨hw, rfl⟩

theorem refl (s : Mmu A) : Keeps s s := .of_mem_eq rfl rfl

theorem trans {s s₁ s₂ : Mmu A} (h₁ : Keeps s s₁) (h₂ : Keeps s₁ s₂) : Keeps s s₂ := by
  obtain ⟨taken₁, htables₁, hwords₁⟩ := h₁
  obtain ⟨taken₂, htables₂, hwords₂⟩ := h₂
  refine ⟨taken₂ ++ taken₁, by rw [htables₂, htables₁, List.append_assoc], fun w hw htype => ?_⟩
  obtain ⟨htype₁, hnext₁⟩ := hwords₁ w (fun a ha => hw a (List.mem_append_right _ ha)) htype
  obtain ⟨htype₂, hnext₂⟩ := hwords₂ w (fun a ha => hw a (List.mem_append_left _ ha)) htype₁
  exact ⟨htype₂, hnext₂.trans hnext₁⟩

/-- A counted loop whose rounds keep the links keeps them. -/
theorem forRange {σ : Type} {body : Nat → σ → σ} (mmu : σ → Mmu A)
    (hbody : ∀ i c, Keeps (mmu c) (mmu (body i c))) (n first : Nat) (c : σ) :
    Keeps (mmu c) (mmu (forRange body n first c)) := by
  refine Loop.forRange_invariant (I := fun _ c' => Keeps (mmu c) (mmu c')) ?_ (.refl _)
  intro i c' _ _ hc
  exact hc.trans (hbody i c')

/-- A store into a slot that holds no link. -/
theorem write {s : Mmu A} {table idx : Nat} (entry : Nat) (h : s.read table idx % 4 ≠ 3) :
    Keeps s (s.write table idx entry) := by
  refine .of_words rfl fun w hw => ?_
  have hne : w ≠ wordOf table idx := by
    rintro rfl
    exact h hw
  rw [show (s.write table idx entry).mem w = s.mem w from Function.update_of_ne hne _ _]
  exact ⟨hw, rfl⟩

theorem override (s : Mmu A) (table idx memoryType : Nat) :
    Keeps s (s.mmuOverrideMemoryType table idx memoryType) := by
  refine .of_words rfl fun w hw => ?_
  by_cases heq : w = wordOf table idx
  · have hmem : (s.mmuOverrideMemoryType table idx memoryType).mem w =
        mmuWithMemoryType (s.mem w) memoryType := by
      rw [heq]
      exact Function.update_self ..
    rw [hmem]
    simp only [mmuWithMemoryType, mmuAttrIndx, bitField, nextTable]
    omega
  · rw [show (s.mmuOverrideMemoryType table idx memoryType).mem w = s.mem w from
      Function.update_of_ne heq _ _]
    exact ⟨hw, rfl⟩

theorem createTable (s : Mmu A) : Keeps s (s.memoryMmuCreateTable pages).2 := by
  refine ⟨[s.newPage pages], rfl, fun w hw htype => ?_⟩
  have hout : ¬InPage (s.newPage pages) w := hw _ (List.mem_singleton_self _)
  have hmem : (s.memoryMmuCreateTable pages).2.mem w = s.mem w := if_neg hout
  rw [hmem]
  exact ⟨htype, rfl⟩

theorem getSubtable (s : Mmu A) (table idx level : Nat) :
    Keeps s (s.mmuGetSubtable table idx level).2 := .of_mem_eq rfl rfl

theorem getPhysSpace (s : Mmu A) (callback : GetPhysSpace A) (request : MmuPhysSpaceRequest) :
    Keeps s (s.getPhysSpace callback request).2 := .of_mem_eq rfl rfl

/-- A new table, linked from a slot that holds no link. -/
theorem linkTable {s : Mmu A} {table idx : Nat} (level : Nat) (h : s.read table idx % 4 ≠ 3) :
    Keeps s (s.linkTable pages table idx level) := by
  have hread : (s.memoryMmuCreateTable pages).2.read table idx % 4 ≠ 3 := by
    by_cases hin : InPage (s.newPage pages) (wordOf table idx)
    · rw [show (s.memoryMmuCreateTable pages).2.read table idx = 0 from if_pos hin]
      decide
    · rwa [show (s.memoryMmuCreateTable pages).2.read table idx = s.read table idx from if_neg hin]
  have hnew : Keeps s (s.memoryMmuCreateTable pages).2 := .createTable s
  have hassert : Keeps (s.memoryMmuCreateTable pages).2
      ((s.memoryMmuCreateTable pages).2.assert (level ≠ 3)) := .of_mem_eq rfl rfl
  exact (hnew.trans hassert).trans (.write _ hread)

end Keeps

/-! ## Splits and descents -/

/-- Stores into the slots of a table reach no other word. -/
theorem forRange_units_mem {table w : Nat} {createEntry : Nat → Mmu A → Mmu A}
    (hcreate : ∀ k s, w ≠ wordOf table k → (createEntry k s).mem w = s.mem w) (s : Mmu A)
    (hw : ¬(wordOf table 0 ≤ w ∧ w < wordOf table 512)) :
    (forRange createEntry 512 0 s).mem w = s.mem w := by
  have hrun := Loop.forRange_invariant (f := createEntry) (n := 512) (k := 0) (s := s)
    (I := fun _ s' => s'.mem w = s.mem w) (fun k s' _ hk hs' => ?_) rfl
  · exact hrun
  · rw [hcreate k s', hs']
    rintro rfl
    refine hw ⟨Nat.add_le_add_left (Nat.zero_le k) _, Nat.add_lt_add_left (by omega) _⟩

namespace Keeps

/-- A split of what is not a link: the units go to the new page. -/
theorem splitBlockEntry {s : Mmu A} {table idx : Nat} (level : Nat) (h : s.read table idx % 4 ≠ 3) :
    Keeps s (s.mmuSplitBlockEntry pages table idx level).2 := by
  have hlink : Keeps s (s.linkTable pages table idx level) := .linkTable level h
  obtain ⟨taken, htables, hwords⟩ := hlink
  have htaken : taken = [s.newPage pages] := List.append_cancel_right htables.symm
  subst htaken
  refine ⟨[s.newPage pages], splitBlockEntry_tables pages s table idx level, fun w hw htype => ?_⟩
  have hunits : (s.mmuSplitBlockEntry pages table idx level).2.mem w =
      (s.linkTable pages table idx level).mem w := by
    simp only [mmuSplitBlockEntry, mmuNumberOfLevelEntries, createTable_fst, Mmu.linkTable]
    refine forRange_units_mem (fun k s' hne => ?_) _ (hw _ (List.mem_singleton_self _))
    split
    · exact Function.update_of_ne hne _ _
    · exact Function.update_of_ne hne _ _
  rw [hunits]
  exact hwords w hw htype

theorem descend (level : Nat) (d : Descent A) : Keeps d.mmu (descend pages level d).mmu := by
  simp only [Mmu.descend]
  generalize hidx : u32 (d.address / mmuSizeOfLevelRegion level) = idx
  split
  · rename_i hinvalid
    have hread : d.mmu.read d.table idx % 4 ≠ 3 := by
      simp only [mmuEntryValid_eq, Bool.not_eq_true', decide_eq_false_iff_not] at hinvalid
      omega
    exact .linkTable level hread
  · split
    · exact .getSubtable _ _ _ _
    · rename_i hblock
      rw [mmuEntryDescriptor_eq, decide_eq_true_iff] at hblock
      have hread : d.mmu.read d.table idx % 4 ≠ 3 := by omega
      have hsplit : Keeps d.mmu (d.mmu.mmuSplitBlockEntry pages d.table idx level).2 :=
        .splitBlockEntry level hread
      generalize d.mmu.mmuSplitBlockEntry pages d.table idx level = split at hsplit ⊢
      exact hsplit

theorem traverse (s : Mmu A) (table level address destinationLevel : Nat) :
    Keeps s (s.mmuTraverseAndAllocTables pages table level address destinationLevel).2 := by
  simp only [mmuTraverseAndAllocTables]
  exact Keeps.forRange Descent.mmu Keeps.descend (destinationLevel - level) level ⟨table, address, s⟩

end Keeps

/-! ## Mapping -/

namespace Keeps

theorem createPageEntry {s : Mmu A} {table idx : Nat} (level address memoryType : Nat)
    (h : s.read table idx % 4 ≠ 3) :
    Keeps s (s.mmuCreatePageEntry table idx level address memoryType) := by
  have hassert : Keeps s (s.assert (level = 3)) := .of_mem_eq rfl rfl
  exact hassert.trans (.write _ h)

theorem fillSubtable (s : Mmu A) (table virtAddr : Nat) :
    Keeps s (s.fillSubtable kind table virtAddr) := by
  rw [fillSubtable_eq]
  refine Keeps.forRange Prod.snd (fun l3Idx c => ?_) _ _ (virtAddr, s)
  simp only [fillRound]
  split
  · rename_i hempty
    rw [mmuType_eq, mmuEmptyEntry] at hempty
    have hread : c.2.read table l3Idx % 4 ≠ 3 := by omega
    exact (Keeps.getPhysSpace c.2 kind.getPhysSpace _).trans (.createPageEntry _ _ _ hread)
  · split
    · exact .override _ _ _ _
    · exact .refl _

theorem mapUnit (hkind : kind.Regular) (s : Mmu A) (tableData : MmuEntryInfo)
    (unitNumber requestedAddr : Nat) :
    Keeps s (s.mapUnit kind tableData unitNumber requestedAddr) := by
  simp only [Mmu.mapUnit, hkind.create]
  split
  · split
    · exact (Keeps.getSubtable s _ _ _).trans (.fillSubtable _ _ _)
    · split
      · exact .override _ _ _ _
      · exact .refl _
  · rename_i hempty
    have hread : s.read tableData.table unitNumber % 4 ≠ 3 := by
      rw [not_not.mp hempty, mmuEmptyEntry]
      decide
    exact (Keeps.getPhysSpace s kind.getPhysSpace _).trans (.write _ hread)

theorem mapBatch (hkind : kind.Regular) (s : Mmu A) (tableData : MmuEntryInfo)
    (unitCount requestedAddr : Nat) : Keeps s (s.mapBatch kind tableData unitCount requestedAddr) :=
  Keeps.forRange Prod.snd (fun unitNumber c => .mapUnit hkind c.2 _ unitNumber c.1) _ _ _

theorem mapRound (hkind : kind.Regular) (table level address : Nat) (c : MapCursor A) :
    Keeps c.mmu (Mmu.mapRound pages kind table level address c).mmu := by
  have htraverse : Keeps c.mmu (c.mmu.mmuTraverseAndAllocTables pages table level
      (u64 (address + c.offset)) kind.destinationLevel).2 := .traverse ..
  exact htraverse.trans (.mapBatch hkind _ _ _ _)

theorem mapLoop (hkind : kind.Regular) (table level address n : Nat) (c : MapCursor A) :
    Keeps c.mmu (loopWhile MapCursor.active (Mmu.mapRound pages kind table level address) n c).mmu := by
  refine Loop.invariant (I := fun c' : MapCursor A => Keeps c.mmu c'.mmu) ?_ (.refl _) n
  intro c' hc' _
  exact hc'.trans (.mapRound hkind table level address c')

theorem mapUnits (hkind : kind.Regular) (s : Mmu A) (table level address count : Nat) :
    Keeps s (s.mmuMapUnits pages kind table level address count) :=
  .mapLoop hkind table level address count ⟨count, 0, s⟩

end Keeps

/-! ## The way to a table -/

/-- A page taken for a table from `s` to `s'`. -/
def TakenSince (s s' : Mmu A) (a : Nat) : Prop := ∃ taken, s'.tables = taken ++ s.tables ∧ a ∈ taken

theorem TakenSince.mono {s₀ s s' : Mmu A} {a : Nat} (h : TakenSince s s' a) (h₀ : RecordedIn s₀ s) :
    TakenSince s₀ s' a := by
  obtain ⟨taken, htables, ha⟩ := h
  obtain ⟨earlier, hearlier⟩ := h₀.tables
  exact ⟨taken ++ earlier, by rw [htables, ← hearlier, List.append_assoc], List.mem_append_left _ ha⟩

/-- The way down to a table of a tree stays, unless a page is taken from above it. -/
theorem Keeps.walkTable_eq {s s' : Mmu A} (h : Keeps s s') {root va levels level a b : Nat} {t : MmuTree}
    (htree : HoldsTree s.mem root t) (hnode : t.node level (slotNumber level va / 512) = some a)
    (hend : t.node (level + levels) (slotNumber (level + levels) va / 512) = some b)
    (hout : ∀ p, TakenSince s s' p → IsTableAddress p ∧ ∀ l < level + levels, ∀ n, t.node l n ≠ some p) :
    walkTable s'.mem levels level a va = some b := by
  induction levels generalizing level a with
  | zero => exact hnode.symm.trans hend
  | succ levels ih =>
    have hi : slotNumber level va % 512 < 512 := Nat.mod_lt _ (by decide)
    have hslot : slotNumber level va / 512 * 512 + slotNumber level va % 512 = slotNumber level va :=
      Nat.div_add_mod' _ _
    have hdepth := htree.depth hend
    have hpath : slotNumber (level + (levels + 1)) va / 512 = slotNumber (level + levels) va :=
      slotNumber_path va (level + levels) (by omega)
    have hlast : t.node (level + levels + 1) (slotNumber (level + levels) va) = some b := hpath ▸ hend
    obtain ⟨c, hc⟩ := htree.wellFormed.node_above (slotNumber_path va) (by omega) hlast
      (Nat.le_add_right level levels)
    obtain ⟨taken, htables, hwords⟩ := h
    have hword := htree.word_of_node hnode hi (by rw [hslot, hc])
    have hkept := hwords (a / 8 + slotNumber level va % 512) (fun p hp hin => ?_)
      (by rw [hword]; exact tableEntry_type _)
    · have htype : s'.mem (a / 8 + slotNumber level va % 512) % 2 = 1 ∧
          s'.mem (a / 8 + slotNumber level va % 512) / 2 % 2 = 1 := by omega
      have hnext : nextTable (s'.mem (a / 8 + slotNumber level va % 512)) = c := by
        rw [hkept.2, hword, nextTable_tableEntry (htree.address hc)]
      simp only [walkTable, htype, and_self, if_true, hnext]
      refine ih (by rw [slotNumber_path va level (by omega), hc]) ?_ fun p hp => ?_
      · rwa [Nat.add_right_comm]
      · rw [Nat.add_right_comm]
        exact hout p hp
    · obtain ⟨hpage, hfree⟩ := hout p ⟨taken, htables, hp⟩
      obtain rfl := hpage.eq_of_inTable (htree.address hnode) ((inPage_iff hpage).mp hin) (inTable_slot hi)
      exact hfree level (by omega) _ hnode

end Mmu
end PiVOS
