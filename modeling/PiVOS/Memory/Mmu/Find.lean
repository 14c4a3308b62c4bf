-- SUMMARY: When the software translation agrees with the walk.
import PiVOS.Boot.Mmu
import PiVOS.Memory.Mmu.Descend

/-!
# Looking addresses up

`mmu_find` follows the walk down to the table where it ends. On level 3 it returns
the slot of the address, above it slot 0 of the table. `memory_mmu_va_to_pa` then
takes every entry that is not empty for that of a page. The result is right for
pages, and for blocks and unmapped addresses only as far as slot 0 happens to say
the same.
-/

namespace PiVOS

namespace MmuTree

/-- The walk for `va` ends in the table at `a`: no table hangs from the slot. -/
def EndsAt (t : MmuTree) (va level a : Nat) : Prop :=
  t.node level (slotNumber level va / 512) = some a ∧ t.node (level + 1) (slotNumber level va) = none

end MmuTree

open MmuTree

namespace HoldsTree

variable {mem : Nat → Nat} {root va level a : Nat} {t : MmuTree}

/-- On the levels above the end of the walk there are tables. -/
theorem node_of_endsAt (h : HoldsTree mem root t) (hend : t.EndsAt va level a) {l : Nat}
    (hl : l < level) : ∃ b, t.node (l + 1) (slotNumber l va) = some b := by
  obtain ⟨level, rfl⟩ := Nat.exists_eq_succ_of_ne_zero (Nat.ne_of_gt (Nat.zero_lt_of_lt hl))
  have hdepth := h.depth hend.1
  have hnode := hend.1
  rw [slotNumber_path va level (by omega)] at hnode
  exact h.wellFormed.node_above (slotNumber_path va) (by omega) hnode (Nat.le_of_lt_succ hl)

theorem endsAt_unique (h : HoldsTree mem root t) {level' a' : Nat} (hend : t.EndsAt va level a)
    (hend' : t.EndsAt va level' a') : level = level' ∧ a = a' := by
  have hne : ∀ {l l' b b'}, t.EndsAt va l b → t.EndsAt va l' b' → ¬l < l' := by
    intro l l' b b' hl hl' hlt
    obtain ⟨c, hc⟩ := h.node_of_endsAt hl' hlt
    rw [hl.2] at hc
    cases hc
  obtain rfl : level = level' :=
    Nat.le_antisymm (Nat.le_of_not_lt (hne hend' hend)) (Nat.le_of_not_lt (hne hend hend'))
  exact ⟨rfl, Option.some.inj (hend.1.symm.trans hend'.1)⟩

/-- The walk gives what stands in the slot it ends in. -/
theorem walk_of_endsAt (h : HoldsTree mem root t) (hva : va < 2 ^ 48) (hend : t.EndsAt va level a) :
    walk mem root va = (t.leaf level (slotNumber level va)).map (translate level · va) := by
  cases hleaf : t.leaf level (slotNumber level va) with
  | some e => exact h.walk_of_leaf hva hleaf
  | none =>
    refine h.walk_of_no_leaf hva fun l => ?_
    cases hl : t.leaf l (slotNumber l va) with
    | none => rfl
    | some e =>
      exfalso
      rcases Nat.lt_trichotomy l level with hlt | rfl | hgt
      · obtain ⟨b, hb⟩ := h.node_of_endsAt hend hlt
        rw [h.wellFormed.leaf_end hl] at hb
        cases hb
      · rw [hleaf] at hl
        cases hl
      · obtain ⟨b, hb⟩ := h.wellFormed.leaf_node hl
        have hdepth := h.depth hb
        obtain ⟨c, hc⟩ := h.wellFormed.node_above_leaf (slotNumber_path va) hdepth hl hgt
        rw [hend.2] at hc
        cases hc

end HoldsTree

namespace Mmu

variable {A : Type}

/-! ## The loop -/

theorem findRound_of_table {c : FindCursor A} {b : Nat} (hlevel : c.level < 3)
    (hslot : c.address / regionSize c.level < 512) (hb : IsSubtableAddress b)
    (hread : c.mmu.read c.table (c.address / regionSize c.level) =
      mmuTableEntryBits (setKernelSpace b)) :
    findRound c = { table := setKernelSpace b, address := c.address % regionSize c.level, mmu := c.mmu,
                    level := c.level + 1, stopped := false } := by
  have htype : mmuType (mmuTableEntryBits (setKernelSpace b)) = mmuTableEntry :=
    (mmuType_eq _).trans (tableEntry_type _)
  have hsubtable := getSubtable_eq (Nat.ne_of_lt hlevel) hb hread
  simp only [findRound, regionSize_eq (Nat.le_of_lt hlevel),
    u32_of_lt (by omega : c.address / regionSize c.level < 2 ^ 32), hread, htype, hsubtable, if_true]

theorem findRound_of_other {c : FindCursor A} (hlevel : c.level < 3)
    (hslot : c.address / regionSize c.level < 512)
    (hread : c.mmu.read c.table (c.address / regionSize c.level) % 4 ≠ 3) :
    findRound c = { c with address := c.address % regionSize c.level, stopped := true } := by
  have htype : ¬mmuType (c.mmu.read c.table (c.address / regionSize c.level)) = mmuTableEntry := by
    rw [mmuType_eq]
    exact hread
  simp only [findRound, regionSize_eq (Nat.le_of_lt hlevel),
    u32_of_lt (by omega : c.address / regionSize c.level < 2 ^ 32), htype, if_false]

/-- Where the loop of `mmu_find` ends: in the table of `va` on level 3, or higher up
with the address cut down to the region of the slot it stopped at. -/
structure FoundAt (t : MmuTree) (s : Mmu A) (va level a : Nat) (c : FindCursor A) : Prop where
  endsAt : t.EndsAt va level a
  mmu : c.mmu = s
  level_eq : c.level = level
  table : c.table = setKernelSpace a
  idx : c.address / regionSize level = if level = 3 then slotNumber level va % 512 else 0

theorem findLoop_spec {s : Mmu A} {root va : Nat} {t : MmuTree} (h : HoldsTree s.mem root t)
    {n : Nat} {c : FindCursor A} (hd : DescentAt t c.toDescent c.level va) (hmmu : c.mmu = s)
    (hstopped : c.stopped = false) (hn : c.level + n = 3) :
    ∃ level a, FoundAt t s va level a (loopWhile FindCursor.active findRound n c) := by
  induction n generalizing c with
  | zero =>
    obtain ⟨a, hnode, htable⟩ := hd.table
    have hlevel : c.level = 3 := hn
    refine ⟨3, a, ⟨by rwa [hlevel] at hnode, ?_⟩, hmmu, hlevel, htable, ?_⟩
    · cases hbelow : t.node (3 + 1) (slotNumber 3 va) with
      | none => rfl
      | some b => exact absurd (h.depth hbelow) (by decide)
    · rw [if_pos rfl, ← hlevel]
      exact hd.slot
  | succ n ih =>
    obtain ⟨a, hnode, htable⟩ := hd.table
    have hlevel : c.level < 3 := by omega
    have hactive : c.active = true := by simp [FindCursor.active, hlevel, hstopped]
    have ha := h.address hnode
    have hi : slotNumber c.level va % 512 < 512 := Nat.mod_lt _ (by decide)
    have hnumber : slotNumber c.level va / 512 * 512 + slotNumber c.level va % 512 =
        slotNumber c.level va := Nat.div_add_mod' _ _
    have hslot : c.address / regionSize c.level = slotNumber c.level va % 512 := hd.slot
    have hread : c.mmu.read c.table (c.address / regionSize c.level) =
        s.mem (a / 8 + slotNumber c.level va % 512) := by
      rw [htable, read_eq ha, hmmu, hslot]
    rw [Loop.loopWhile_succ_of_true _ hactive]
    cases hbelow : t.node (c.level + 1) (slotNumber c.level va) with
    | some b =>
      have hword := h.word_of_node hnode hi (by rw [hnumber, hbelow])
      rw [findRound_of_table hlevel (hslot ▸ hi) (h.subtableAddress hbelow) (hread.trans hword)]
      exact ih (hd.below hlevel hbelow rfl rfl) hmmu rfl (by simp only; omega)
    | none =>
      have hother : c.mmu.read c.table (c.address / regionSize c.level) % 4 ≠ 3 := by
        rw [hread]
        cases hleaf : t.leaf c.level (slotNumber c.level va) with
        | none =>
          rw [h.word_of_empty hnode hi (by rw [hnumber, hleaf]) (by rw [hnumber, hbelow])]
          decide
        | some e =>
          rw [h.word_of_leaf hnode hi (by rw [hnumber, hleaf])]
          rcases h.leaf_entry hleaf with ⟨-, htype⟩ | ⟨hthree, -⟩
          · omega
          · omega
      rw [findRound_of_other hlevel (hslot ▸ hi) hother, Loop.loopWhile_of_false _ (by
        simp [FindCursor.active])]
      refine ⟨c.level, a, ⟨hnode, hbelow⟩, hmmu, rfl, htable, ?_⟩
      rw [if_neg (Nat.ne_of_lt hlevel)]
      exact Nat.div_eq_of_lt (Nat.mod_lt _ (regionSize_pos _))

/-- `mmu_find` from the root. -/
theorem mmuFind_spec {s : Mmu A} {root va : Nat} {t : MmuTree} (h : HoldsTree s.mem root t)
    (hva : va < 2 ^ 48) : ∃ level a, t.EndsAt va level a ∧
      s.mmuFind (setKernelSpace root) 0 va =
        (⟨setKernelSpace a, if level = 3 then slotNumber level va % 512 else 0, level⟩, s) := by
  have hroot : t.node 0 0 = some root := by rw [h.root_node, if_pos rfl]
  obtain ⟨level, a, hfound⟩ := findLoop_spec (n := 3) h
    (c := { table := setKernelSpace root, address := va, mmu := s, level := 0, stopped := false })
    (DescentAt.start hroot hva s) rfl rfl rfl
  refine ⟨level, a, hfound.endsAt, ?_⟩
  have hidx := hfound.idx
  have hlevel := h.depth hfound.endsAt.1
  rw [mmuFind]
  simp only [hfound.level_eq, hfound.table, hfound.mmu, regionSize_eq hlevel, hidx, Nat.sub_zero]
  rw [u32_of_lt]
  split <;> omega

/-- Wherever the walk ends, `mmu_find` ends there too. -/
theorem mmuFind_eq {s : Mmu A} {root va level a : Nat} {t : MmuTree} (h : HoldsTree s.mem root t)
    (hva : va < 2 ^ 48) (hend : t.EndsAt va level a) : s.mmuFind (setKernelSpace root) 0 va =
      (⟨setKernelSpace a, if level = 3 then slotNumber level va % 512 else 0, level⟩, s) := by
  obtain ⟨level', a', hend', hfind⟩ := mmuFind_spec h hva
  obtain ⟨rfl, rfl⟩ := h.endsAt_unique hend hend'
  exact hfind

/-! ## The translation -/

theorem type_and_pageEntry (entry : Nat) : (mmuType entry &&& mmuPageEntry ≠ 0) ↔ entry % 4 ≠ 0 := by
  rw [mmuType_eq, mmuPageEntry, show (0b11 : Nat) = 2 ^ 2 - 1 from rfl,
    Nat.and_two_pow_sub_one_eq_mod, Nat.mod_mod]

/-- Every entry that is not empty is read as a page entry. -/
theorem vaToPa_eq {s : Mmu A} {root va level a idx : Nat}
    (hfind : s.mmuFind (setKernelSpace root) 0 va = (⟨setKernelSpace a, idx, level⟩, s))
    (ha : IsTableAddress a) : (s.memoryMmuVaToPa (setKernelSpace root) va).1 =
      if s.mem (a / 8 + idx) % 4 ≠ 0 then
        setKernelSpace (mmuGetAddressFromPageEntry (s.mem (a / 8 + idx)) + va % 4096)
      else null := by
  simp only [memoryMmuVaToPa, hfind, read_eq ha, type_and_pageEntry, mmuPageSize_eq]
  by_cases htype : s.mem (a / 8 + idx) % 4 ≠ 0
  · rw [if_pos htype, if_pos htype]
  · have hzero : mmuType (s.mem (a / 8 + idx)) = 0 := by
      rw [mmuType_eq]
      omega
    rw [if_neg htype, if_neg htype, hzero, if_neg (by decide)]

theorem setKernelSpace_ne_null {a : Nat} (h : a < 2 ^ 48) : setKernelSpace a ≠ null := by
  rw [setKernelSpace_of_lt h, null, kernelSpaceMask]
  omega

theorem setKernelSpace_inj {a b : Nat} (ha : a < 2 ^ 48) (hb : b < 2 ^ 48) :
    setKernelSpace a = setKernelSpace b ↔ a = b := by
  rw [setKernelSpace_of_lt ha, setKernelSpace_of_lt hb, Nat.add_right_cancel_iff]

/-- What the caller of `memory_mmu_va_to_pa` is to get: the address the walk gives,
seen from the kernel, or `NULL`. -/
def VaToPaAgrees (s : Mmu A) (root va : Nat) : Prop :=
  (s.memoryMmuVaToPa (setKernelSpace root) va).1 =
    match walk s.mem root va with
    | some translation => setKernelSpace translation.pa
    | none => null

/-- Slot 0 of the table where the walk ends, above level 3, says the same as the
slot of `va`: it is empty too, or has the page of `va` in the bits of a page entry. -/
def FirstSlotAgrees (t : MmuTree) (mem : Nat → Nat) (va : Nat) : Prop :=
  ∀ level a, t.EndsAt va level a → level < 3 →
    match t.leaf level (slotNumber level va) with
    | none => mem (a / 8) % 4 = 0
    | some e => mem (a / 8) % 4 ≠ 0 ∧
      mmuGetAddressFromPageEntry (mem (a / 8)) = (translate level e va).pa / 4096 * 4096

/-- A page `va` lies in is below 64 GB, where its entry gives its address back. -/
def PageLow (t : MmuTree) (va : Nat) : Prop :=
  ∀ e, t.leaf 3 (slotNumber 3 va) = some e → (translate 3 e va).pa < 2 ^ 36

theorem translate_pa_lt {level e va : Nat} (hlevel : level ≤ 3) (hpos : 1 ≤ level) :
    (translate level e va).pa < 2 ^ 48 := by
  obtain rfl | rfl | rfl : level = 1 ∨ level = 2 ∨ level = 3 := by omega
  all_goals
    simp only [translate, outputAddress, regionSize]
    omega

theorem translate_pa_mod {level e va : Nat} (hlevel : level ≤ 3) (hpos : 1 ≤ level) :
    (translate level e va).pa % 4096 = va % 4096 := by
  obtain rfl | rfl | rfl : level = 1 ∨ level = 2 ∨ level = 3 := by omega
  all_goals
    simp only [translate, outputAddress, regionSize]
    omega

theorem pageEntry_address_lt (entry : Nat) (va : Nat) :
    mmuGetAddressFromPageEntry entry + va % 4096 < 2 ^ 48 ∧
      mmuGetAddressFromPageEntry entry % 4096 = 0 := by
  simp only [mmuGetAddressFromPageEntry, wideShiftLeft, bitField]
  omega

/-- A page entry gives the address of its page back below 64 GB only. -/
theorem getPageEntry_eq_iff (entry va : Nat) :
    mmuGetAddressFromPageEntry entry + va % 4096 = (translate 3 entry va).pa ↔
      (translate 3 entry va).pa < 2 ^ 36 := by
  simp only [mmuGetAddressFromPageEntry, wideShiftLeft, bitField, translate, outputAddress, regionSize]
  omega

/-- What the translation makes of an entry, compared with an unmapped address. -/
theorem readEntry_eq_null (entry va : Nat) :
    (if entry % 4 ≠ 0 then setKernelSpace (mmuGetAddressFromPageEntry entry + va % 4096) else null) =
      null ↔ entry % 4 = 0 := by
  split
  · rename_i hvalid
    have hne := setKernelSpace_ne_null (pageEntry_address_lt entry va).1
    exact ⟨fun heq => absurd heq hne, fun heq => absurd heq hvalid⟩
  · rename_i hempty
    exact ⟨fun _ => by omega, fun _ => rfl⟩

/-- The same for a mapped address: the bits of a page entry are its page. -/
theorem readEntry_eq_some (entry : Nat) {va pa : Nat} (hpa : pa < 2 ^ 48)
    (hmod : pa % 4096 = va % 4096) :
    (if entry % 4 ≠ 0 then setKernelSpace (mmuGetAddressFromPageEntry entry + va % 4096) else null) =
      setKernelSpace pa ↔
      entry % 4 ≠ 0 ∧ mmuGetAddressFromPageEntry entry = pa / 4096 * 4096 := by
  obtain ⟨hpage, haligned⟩ := pageEntry_address_lt entry va
  split
  · rename_i hvalid
    rw [setKernelSpace_inj hpage hpa]
    constructor
    · exact fun heq => ⟨hvalid, by omega⟩
    · rintro ⟨-, heq⟩
      omega
  · rename_i hempty
    constructor
    · exact fun heq => absurd heq.symm (setKernelSpace_ne_null hpa)
    · exact fun ⟨hvalid, _⟩ => absurd hvalid hempty

section

variable {s : Mmu A} {root va level a : Nat} {t : MmuTree} (h : HoldsTree s.mem root t)
  (hva : va < 2 ^ 48)

include h hva

/-- On level 3 the entry is the right one, and a page entry or empty. -/
theorem vaToPaAgrees_page_iff (hend : t.EndsAt va 3 a) : s.VaToPaAgrees root va ↔ PageLow t va := by
  have hi : slotNumber 3 va % 512 < 512 := Nat.mod_lt _ (by decide)
  have hnumber : slotNumber 3 va / 512 * 512 + slotNumber 3 va % 512 = slotNumber 3 va :=
    Nat.div_add_mod' _ _
  have hfind := mmuFind_eq h hva hend
  rw [if_pos rfl] at hfind
  rw [VaToPaAgrees, vaToPa_eq hfind (h.address hend.1), h.walk_of_endsAt hva hend, PageLow]
  cases hleaf : t.leaf 3 (slotNumber 3 va) with
  | none =>
    rw [h.word_of_empty hend.1 hi (by rw [hnumber, hleaf]) (by rw [hnumber, hend.2])]
    exact iff_of_true rfl fun e he => absurd he (by simp)
  | some e =>
    rw [h.word_of_leaf hend.1 hi (by rw [hnumber, hleaf])]
    have htype : e % 4 = 3 := by
      rcases h.leaf_entry hleaf with ⟨hlevel, -⟩ | ⟨-, htype⟩ <;> omega
    have hpa : (translate 3 e va).pa < 2 ^ 48 := translate_pa_lt (Nat.le_refl 3) (by decide)
    simp only [if_pos (show e % 4 ≠ 0 by omega), Option.map_some,
      setKernelSpace_inj (pageEntry_address_lt e va).1 hpa, Option.some.injEq, forall_eq']
    exact getPageEntry_eq_iff e va

/-- Above level 3 it is slot 0 that counts. -/
theorem vaToPaAgrees_above_iff (hend : t.EndsAt va level a) (hlevel : level < 3) :
    s.VaToPaAgrees root va ↔
      match t.leaf level (slotNumber level va) with
      | none => s.mem (a / 8) % 4 = 0
      | some e => s.mem (a / 8) % 4 ≠ 0 ∧
        mmuGetAddressFromPageEntry (s.mem (a / 8)) = (translate level e va).pa / 4096 * 4096 := by
  have hfind := mmuFind_eq h hva hend
  rw [if_neg (Nat.ne_of_lt hlevel)] at hfind
  rw [VaToPaAgrees, vaToPa_eq hfind (h.address hend.1), Nat.add_zero, h.walk_of_endsAt hva hend]
  cases hleaf : t.leaf level (slotNumber level va) with
  | none => exact readEntry_eq_null _ _
  | some e =>
    have hpos : 1 ≤ level := by
      rcases h.leaf_entry hleaf with ⟨hlevel, -⟩ | ⟨rfl, -⟩ <;> omega
    exact readEntry_eq_some _ (translate_pa_lt (Nat.le_of_lt hlevel) hpos)
      (translate_pa_mod (Nat.le_of_lt hlevel) hpos)

/-- The software translation is right just when slot 0 agrees, and a page lies below 64 GB;
for addresses whose walk ends on level 3 it is only the page that counts. -/
theorem vaToPaAgrees_iff : s.VaToPaAgrees root va ↔ FirstSlotAgrees t s.mem va ∧ PageLow t va := by
  obtain ⟨level, a, hend, -⟩ := mmuFind_spec h hva
  rcases Nat.lt_or_eq_of_le (h.depth hend.1) with hlevel | rfl
  · rw [vaToPaAgrees_above_iff h hva hend hlevel]
    constructor
    · refine fun hagrees => ⟨fun level' a' hend' _ => ?_, fun e he => ?_⟩
      · obtain ⟨rfl, rfl⟩ := h.endsAt_unique hend hend'
        exact hagrees
      · obtain ⟨b, hb⟩ := h.wellFormed.leaf_node he
        obtain ⟨rfl, -⟩ := h.endsAt_unique hend (⟨hb, h.node_four _⟩ : t.EndsAt va 3 b)
        exact absurd hlevel (by decide)
    · exact fun hfirst => hfirst.1 level a hend hlevel
  · rw [vaToPaAgrees_page_iff h hva hend, and_iff_right]
    intro level' a' hend' hlevel'
    obtain ⟨rfl, -⟩ := h.endsAt_unique hend hend'
    exact absurd hlevel' (by decide)

end

theorem vaToPaAgrees_iff_boot :
    bootState.VaToPaAgrees 0x80000 0x1000 ↔
      FirstSlotAgrees (bootTree 0x80000) bootState.mem 0x1000 ∧ PageLow (bootTree 0x80000) 0x1000 :=
  vaToPaAgrees_iff bootState_holdsTree (by decide)

/-- The second page of the first block is translated to the first page. -/
theorem not_vaToPaAgrees_boot : ¬bootState.VaToPaAgrees 0x80000 0x1000 := by
  have hend : (bootTree 0x80000).EndsAt 0x1000 2 0x82000 := ⟨rfl, rfl⟩
  have hleaf : (bootTree 0x80000).leaf 2 (slotNumber 2 0x1000) = some (bootBlock 0) := rfl
  rw [vaToPaAgrees_above_iff bootState_holdsTree (by decide) hend (by decide), hleaf]
  rintro ⟨-, hpage⟩
  have hfirst : (bootTree 0x80000).leaf 2 (0 * 512 + 0) = some (bootBlock 0) := rfl
  have hword := bootState_holdsTree.word_of_leaf hend.1 (by decide) hfirst
  rw [Nat.add_zero] at hword
  rw [hword, bootBlock_eq] at hpage
  exact absurd hpage (by decide)

end Mmu
end PiVOS
