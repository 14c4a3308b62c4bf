-- SUMMARY: What splitting a block does to memory, to the translation and to access rights.
import PiVOS.Boot.Mmu
import PiVOS.Memory.Mmu.Descend

/-!
# Splitting blocks

A block is replaced by a table of 512 units, built from the block's address and
memory type. The address is put together as an `int`, so it is right for blocks
below 2 GB. Everything else in a unit is what new entries get, whatever the block had.
-/

namespace PiVOS
namespace Mmu

variable {A : Type}

/-! ## Memory -/

/-- The descriptor of unit `k` of a split block. -/
def splitEntry (level entry k : Nat) : Nat :=
  let address := u64 (mmuSplitBaseAddress entry level + k * mmuSizeOfLevelRegion (level + 1))
  if level = 1 then mmuBlockEntryBits 2 address (mmuAttrIndx entry)
  else mmuPageEntryBits address (mmuAttrIndx entry)

/-- The units of a block are entries of the level below it. -/
theorem isLeafEntry_splitEntry {level : Nat} (hlevel : level = 1 ∨ level = 2) (entry k : Nat) :
    IsLeafEntry (level + 1) (splitEntry level entry k) := by
  rcases hlevel with rfl | rfl
  · refine .inl ⟨.inr rfl, ?_⟩
    simp only [splitEntry, if_true, mmuBlockEntryBits_two]
    omega
  · refine .inr ⟨rfl, ?_⟩
    simp only [splitEntry, if_neg (by decide : ¬2 = 1), mmuPageEntryBits_eq]
    omega

theorem splitEntry_write {level : Nat} (hlevel : level = 1 ∨ level = 2) (s : Mmu A)
    (table entry k : Nat) :
    (if mmuAreBlockEntriesSupported (level + 1) then mmuCreateBlockEntry else mmuCreatePageEntry) s
      table k (level + 1) (u64 (mmuSplitBaseAddress entry level + k * mmuSizeOfLevelRegion (level + 1)))
      (if level = 1 ∨ level = 2 then mmuAttrIndx entry else 0) =
    s.write table k (splitEntry level entry k) := by
  rw [if_pos hlevel]
  rcases hlevel with rfl | rfl
  · exact congrArg (fun s : Mmu A => s.write table k _) (assert_true s)
  · exact congrArg (fun s : Mmu A => s.write table k _) (assert_true s)

/-- Consecutive stores into a table. -/
theorem forRange_write {p : Nat} (hp : IsTableAddress p) (entry : Nat → Nat) (s : Mmu A) (n : Nat) :
    forRange (fun k (s : Mmu A) => s.write (setKernelSpace p) k (entry k)) n 0 s =
      { s with mem := fun w => if p / 8 ≤ w ∧ w < p / 8 + n then entry (w - p / 8) else s.mem w } := by
  have h := Loop.forRange_invariant (n := n)
    (I := fun k (s' : Mmu A) => s' =
      { s with mem := fun w => if p / 8 ≤ w ∧ w < p / 8 + k then entry (w - p / 8) else s.mem w })
    (f := fun k (s : Mmu A) => s.write (setKernelSpace p) k (entry k)) (k := 0) (s := s)
    (fun k s' _ _ hs' => ?_) ?_
  · rwa [Nat.zero_add] at h
  · rw [hs', Mmu.write, wordOf_setKernelSpace hp]
    congr 1
    funext w
    rw [Function.update_apply]
    dsimp only
    by_cases hw : w = p / 8 + k
    · rw [if_pos hw, if_pos (by omega), show w - p / 8 = k by omega]
    · by_cases hin : p / 8 ≤ w ∧ w < p / 8 + k
      · rw [if_neg hw, if_pos hin, if_pos (by omega)]
      · rw [if_neg hw, if_neg hin, if_neg (by omega)]
  · have hnone : ∀ w, ¬(p / 8 ≤ w ∧ w < p / 8 + 0) := fun w => by omega
    simp only [hnone, if_false]

section

variable {pages : PageHeap A} {s : Mmu A} {a i level : Nat} (ha : IsTableAddress a)
  (hp : IsTableAddress (s.newPage pages)) (hfresh : s.newPage pages ≠ a) (hi : i < 512)
  (hlevel : level = 1 ∨ level = 2)

/-- The state after a split: a new table with the units, linked from the block's slot. -/
def splitState (pages : PageHeap A) (s : Mmu A) (a i level : Nat) : Mmu A :=
  { (s.memoryMmuCreateTable pages).2 with
    mem := fun w =>
      if InTable (s.newPage pages) w then
        splitEntry level (s.mem (a / 8 + i)) (w - s.newPage pages / 8)
      else if w = a / 8 + i then mmuTableEntryBits (setKernelSpace (s.newPage pages))
      else s.mem w }

include ha hp hfresh hi hlevel

theorem splitBlockEntry_eq : s.mmuSplitBlockEntry pages (setKernelSpace a) i level =
    (setKernelSpace (s.newPage pages), splitState pages s a i level) := by
  have houtside : ¬InTable (s.newPage pages) (a / 8 + i) := fun hin =>
    hfresh (hp.eq_of_inTable ha hin (inTable_slot hi))
  have hread : (s.memoryMmuCreateTable pages).2.read (setKernelSpace a) i = s.mem (a / 8 + i) := by
    rw [read_eq ha, createTable_mem hp, if_neg houtside]
  have hne : level ≠ 3 := by omega
  have htable : ∀ s' : Mmu A, s'.mmuCreateTableEntry (setKernelSpace a) i level
      (setKernelSpace (s.newPage pages)) =
        s'.write (setKernelSpace a) i (mmuTableEntryBits (setKernelSpace (s.newPage pages))) := by
    intro s'
    rw [mmuCreateTableEntry, decide_eq_true hne, assert_true]
  simp only [mmuSplitBlockEntry, hread, createTable_fst, htable, splitEntry_write hlevel,
    mmuNumberOfLevelEntries, forRange_write hp, Prod.mk.injEq, true_and, splitState]
  rw [Mmu.write, wordOf_setKernelSpace ha]
  congr 1
  funext w
  by_cases hw : InTable (s.newPage pages) w
  · exact (if_pos hw).trans (if_pos hw).symm
  · refine (if_neg hw).trans (Eq.trans ?_ (if_neg hw).symm)
    dsimp only
    rw [Function.update_apply, createTable_mem hp, if_neg hw]

end

/-! ## Translation -/

/-- A split that keeps the translation: the slot leads to the new table, whose
entries translate every address as the block did, and no other word changes. -/
structure SplitsExactly (pages : PageHeap A) (s : Mmu A) (a i level : Nat) : Prop where
  table : (s.mmuSplitBlockEntry pages (setKernelSpace a) i level).1 = setKernelSpace (s.newPage pages)
  link : (s.mmuSplitBlockEntry pages (setKernelSpace a) i level).2.mem (a / 8 + i) =
    mmuTableEntryBits (setKernelSpace (s.newPage pages))
  leaf : ∀ k < 512, IsLeafEntry (level + 1)
    ((s.mmuSplitBlockEntry pages (setKernelSpace a) i level).2.mem (s.newPage pages / 8 + k))
  translate : ∀ va, translate (level + 1)
    ((s.mmuSplitBlockEntry pages (setKernelSpace a) i level).2.mem
      (s.newPage pages / 8 + slotNumber (level + 1) va % 512)) va =
    translate level (s.mem (a / 8 + i)) va
  frame : ∀ w, ¬InTable (s.newPage pages) w → w ≠ a / 8 + i →
    (s.mmuSplitBlockEntry pages (setKernelSpace a) i level).2.mem w = s.mem w

/-- A block's address below 4 GB, put together as an `int`. -/
theorem mmuSplitBaseAddress_eq {level entry : Nat} (hlevel : level = 1 ∨ level = 2)
    (hbase : outputAddress level entry < 2 ^ 32) : mmuSplitBaseAddress entry level =
      if outputAddress level entry < 2 ^ 31 then outputAddress level entry
      else outputAddress level entry + (2 ^ 64 - 2 ^ 32) := by
  rcases hlevel with rfl | rfl
  · have haddress : outputAddress 1 entry = bitField 30 18 entry * 2 ^ 30 := rfl
    rw [haddress] at hbase ⊢
    rw [mmuSplitBaseAddress, if_pos rfl, intShiftLeft, u32_of_lt hbase]
  · have haddress : outputAddress 2 entry = bitField 21 27 entry * 2 ^ 21 := rfl
    rw [haddress] at hbase ⊢
    rw [mmuSplitBaseAddress, if_neg (by decide), if_pos rfl, intShiftLeft, u32_of_lt hbase]

theorem outputAddress_mod {level e : Nat} (hlevel : level = 1 ∨ level = 2) :
    outputAddress level e % regionSize level = 0 := by
  rcases hlevel with rfl | rfl <;> simp only [outputAddress, regionSize] <;> omega

/-- The unit of `va` translates it to its place behind the address the units start at,
cut off at 48 bits. -/
theorem translate_splitEntry {level entry base : Nat} (hlevel : level = 1 ∨ level = 2)
    (hbase : mmuSplitBaseAddress entry level = base) (haligned : base % regionSize level = 0) (va : Nat) :
    translate (level + 1) (splitEntry level entry (slotNumber (level + 1) va % 512)) va =
      { pa := base % 2 ^ 48 + va % regionSize level, attrIndx := entry / 2 ^ 2 % 2 ^ 3 } := by
  rw [translate, splitEntry, hbase]
  rcases hlevel with rfl | rfl
  · simp only [if_true, mmuBlockEntryBits_two, outputAddress, slotNumber, regionSize, mmuAttrIndx,
      bitField, Nat.reduceAdd, Nat.reduceMul, Nat.reduceSub, Nat.reducePow, mmuSizeOfLevelRegion_two, u64,
      Translation.mk.injEq] at haligned ⊢
    omega
  · simp only [if_neg (by decide : ¬2 = 1), mmuPageEntryBits_eq, outputAddress, slotNumber, regionSize,
      mmuAttrIndx, bitField, Nat.reduceAdd, Nat.reduceMul, Nat.reduceSub, Nat.reducePow,
      mmuSizeOfLevelRegion_three, u64, Translation.mk.injEq] at haligned ⊢
    omega

theorem splitState_unit {pages : PageHeap A} {s : Mmu A} {a i level k : Nat} (hk : k < 512) :
    (splitState pages s a i level).mem (s.newPage pages / 8 + k) =
      splitEntry level (s.mem (a / 8 + i)) k := by
  have hin : InTable (s.newPage pages) (s.newPage pages / 8 + k) := inTable_slot hk
  refine (if_pos hin).trans ?_
  rw [Nat.add_sub_cancel_left]

section

variable {pages : PageHeap A} {s : Mmu A} {a i level : Nat} (ha : IsTableAddress a)
  (hp : IsTableAddress (s.newPage pages)) (hfresh : s.newPage pages ≠ a) (hi : i < 512)
  (hlevel : level = 1 ∨ level = 2)

include ha hp hfresh hi hlevel

/-- A split block at or above 2 GB has moved to the top of the address space. -/
theorem not_splitsExactly_of_high (hbase : outputAddress level (s.mem (a / 8 + i)) < 2 ^ 32)
    (hhigh : ¬outputAddress level (s.mem (a / 8 + i)) < 2 ^ 31) : ¬SplitsExactly pages s a i level := by
  intro h
  have haligned := outputAddress_mod (e := s.mem (a / 8 + i)) hlevel
  have haddress := mmuSplitBaseAddress_eq hlevel hbase
  rw [if_neg hhigh] at haddress
  have hmod : (outputAddress level (s.mem (a / 8 + i)) + (2 ^ 64 - 2 ^ 32)) % regionSize level = 0 := by
    rcases hlevel with rfl | rfl <;> simp only [regionSize] at haligned ⊢ <;> omega
  have hzero := h.translate 0
  rw [splitBlockEntry_eq ha hp hfresh hi hlevel, splitState_unit (Nat.mod_lt _ (by decide)),
    translate_splitEntry hlevel haddress hmod, translate, Translation.mk.injEq] at hzero
  omega

/-- A split keeps the translation just when the block lies below 2 GB. -/
theorem splitsExactly_iff (hbase : outputAddress level (s.mem (a / 8 + i)) < 2 ^ 32) :
    SplitsExactly pages s a i level ↔ outputAddress level (s.mem (a / 8 + i)) < 2 ^ 31 := by
  have hsplit := splitBlockEntry_eq ha hp hfresh hi hlevel
  have haligned := outputAddress_mod (e := s.mem (a / 8 + i)) hlevel
  have haddress := mmuSplitBaseAddress_eq hlevel hbase
  constructor
  · intro h
    by_contra hhigh
    exact not_splitsExactly_of_high ha hp hfresh hi hlevel hbase hhigh h
  · intro hlow
    rw [if_pos hlow] at haddress
    refine ⟨?_, ?_, fun k hk => ?_, fun va => ?_, fun w hout hne => ?_⟩ <;> rw [hsplit]
    · have houtside : ¬InTable (s.newPage pages) (a / 8 + i) := fun hin =>
        hfresh (hp.eq_of_inTable ha hin (inTable_slot hi))
      exact (if_neg houtside).trans (if_pos rfl)
    · rw [splitState_unit hk]
      exact isLeafEntry_splitEntry hlevel _ _
    · rw [splitState_unit (Nat.mod_lt _ (by decide)), translate_splitEntry hlevel haddress haligned,
        Nat.mod_eq_of_lt (by omega)]
      rfl
    · exact (if_neg hout).trans (if_neg hne)

end

/-- Hands out the page at 1 MB. -/
def onePage : PageHeap Unit where
  pagesAlloc _ _ _ := (0x100000, ())
  pagesDealloc _ _ _ := ()

/-- Memory with the block at `address` in slot 3 of the table at `0x82000`. -/
def oneBlock (address : Nat) : Mmu Unit :=
  { mem := fun w => if w = 0x82000 / 8 + 3 then mmuBlockEntryBits 2 address 0 else 0, heap := (),
    tables := [], grants := [], trapped := false }

theorem splitsExactly_iff_low : SplitsExactly onePage (oneBlock 0x600000) 0x82000 3 2 ↔
    outputAddress 2 ((oneBlock 0x600000).mem (0x82000 / 8 + 3)) < 2 ^ 31 :=
  splitsExactly_iff ⟨by decide, by decide⟩ ⟨by decide, by decide⟩ (by decide) (by decide) (.inr rfl)
    (by decide)

/-- The block at 2 GB. -/
theorem not_splitsExactly_twoGb : ¬SplitsExactly onePage (oneBlock 0x80000000) 0x82000 3 2 :=
  not_splitsExactly_of_high ⟨by decide, by decide⟩ ⟨by decide, by decide⟩ (by decide) (by decide)
    (.inr rfl) (by decide) (by decide)

/-! ## Access rights -/

/-- The fields of a block or page descriptor that say who may use the memory how. -/
structure AccessRights where
  ns : Nat
  ap : Nat
  sh : Nat
  af : Nat
  nG : Nat
  upperAttributes : Nat
deriving DecidableEq

def accessRights (entry : Nat) : AccessRights :=
  { ns := bitField 5 1 entry
    ap := bitField 6 2 entry
    sh := bitField 8 2 entry
    af := bitField 10 1 entry
    nG := bitField 11 1 entry
    upperAttributes := bitField 51 13 entry }

/-- The block descriptors that the kernel's tables can hold: the boot code's and those
of `mmu_create_block_entry`, with any memory type they were given since. -/
inductive KernelBlock : (level entry : Nat) → Prop
  | boot {m : Nat} (hm : m < 512) : KernelBlock 2 (bootBlock m)
  | create {level : Nat} (hlevel : level = 1 ∨ level = 2) (address memoryType : Nat) :
    KernelBlock level (mmuBlockEntryBits level address memoryType)
  | override {level entry : Nat} (h : KernelBlock level entry) (memoryType : Nat) :
    KernelBlock level (mmuWithMemoryType entry memoryType)

/-- All that tells these blocks apart: memory type, access permission and address. -/
theorem KernelBlock.eq {level entry : Nat} (h : KernelBlock level entry) :
    ∃ x ap address, x < 8 ∧ ap ≤ 1 ∧ address < 2 ^ 27 ∧
      entry = 1 + x * 2 ^ 2 + ap * 2 ^ 6 + 2 ^ 10 + address * 2 ^ 21 := by
  induction h with
  | @boot m hm =>
    refine ⟨0, 0, m, by omega, by omega, by omega, ?_⟩
    rw [bootBlock_eq]
    omega
  | create hlevel address memoryType =>
    rcases hlevel with rfl | rfl
    · refine ⟨memoryType % 8, 1, address / 2 ^ 30 % 2 ^ 18 * 512, by omega, by omega, by omega, ?_⟩
      simp only [mmuBlockEntryBits, mmuBlockEntry, mmuLowerAttributes, if_true]
      omega
    · refine ⟨memoryType % 8, 1, address / 2 ^ 21 % 2 ^ 27, by omega, by omega, by omega, ?_⟩
      rw [mmuBlockEntryBits_two]
      omega
  | override _ memoryType ih =>
    obtain ⟨x, ap, address, hx, hap, haddress, rfl⟩ := ih
    refine ⟨memoryType % 8, ap, address, by omega, hap, haddress, ?_⟩
    simp only [mmuWithMemoryType, mmuAttrIndx, bitField]
    omega

theorem accessRights_splitEntry {level : Nat} (hlevel : level = 1 ∨ level = 2) (entry k : Nat) :
    accessRights (splitEntry level entry k) =
      { ns := 0, ap := 1, sh := 0, af := 1, nG := 0, upperAttributes := 0 } := by
  rcases hlevel with rfl | rfl
  · simp only [splitEntry, if_true, mmuBlockEntryBits_two, accessRights, bitField, AccessRights.mk.injEq]
    omega
  · simp only [splitEntry, if_neg (by decide : ¬2 = 1), mmuPageEntryBits_eq, accessRights, bitField,
      AccessRights.mk.injEq]
    omega

theorem KernelBlock.accessRights {level entry : Nat} (h : KernelBlock level entry) :
    accessRights entry =
      { ns := 0, ap := bitField 6 2 entry, sh := 0, af := 1, nG := 0, upperAttributes := 0 } := by
  obtain ⟨x, ap, address, hx, hap, haddress, rfl⟩ := h.eq
  simp only [Mmu.accessRights, bitField, AccessRights.mk.injEq, true_and]
  omega

/-- Every unit of the split block has the access rights of the block. -/
def SplitKeepsRights (pages : PageHeap A) (s : Mmu A) (a i level : Nat) : Prop :=
  ∀ k < 512, accessRights ((s.mmuSplitBlockEntry pages (setKernelSpace a) i level).2.mem
    (s.newPage pages / 8 + k)) = accessRights (s.mem (a / 8 + i))

section

variable {pages : PageHeap A} {s : Mmu A} {a i level : Nat} (ha : IsTableAddress a)
  (hp : IsTableAddress (s.newPage pages)) (hfresh : s.newPage pages ≠ a) (hi : i < 512)
  (hlevel : level = 1 ∨ level = 2)

include ha hp hfresh hi hlevel

theorem splitKeepsRights_eq : SplitKeepsRights pages s a i level ↔
    accessRights (s.mem (a / 8 + i)) =
      { ns := 0, ap := 1, sh := 0, af := 1, nG := 0, upperAttributes := 0 } := by
  have hunit : ∀ k < 512, accessRights
      ((s.mmuSplitBlockEntry pages (setKernelSpace a) i level).2.mem (s.newPage pages / 8 + k)) =
      { ns := 0, ap := 1, sh := 0, af := 1, nG := 0, upperAttributes := 0 } := by
    intro k hk
    rw [splitBlockEntry_eq ha hp hfresh hi hlevel, splitState_unit hk, accessRights_splitEntry hlevel]
  constructor
  · intro h
    exact (h 0 (by decide)).symm.trans (hunit 0 (by decide))
  · intro h k hk
    exact (hunit k hk).trans h.symm

/-- The access rights of a block of the kernel's tables survive a split just when the
block has the access permission new entries get. -/
theorem splitKeepsRights_iff (hblock : KernelBlock level (s.mem (a / 8 + i))) :
    SplitKeepsRights pages s a i level ↔ bitField 6 2 (s.mem (a / 8 + i)) = 0b01 := by
  rw [splitKeepsRights_eq ha hp hfresh hi hlevel, hblock.accessRights, AccessRights.mk.injEq]
  simp only [true_and, and_true]

end

theorem splitKeepsRights_iff_created :
    SplitKeepsRights onePage (oneBlock 0x600000) 0x82000 3 2 ↔
      bitField 6 2 ((oneBlock 0x600000).mem (0x82000 / 8 + 3)) = 0b01 :=
  splitKeepsRights_iff ⟨by decide, by decide⟩ ⟨by decide, by decide⟩ (by decide) (by decide)
    (.inr rfl) (KernelBlock.create (.inr rfl) 0x600000 0)

/-- Memory with the boot code's fourth block. -/
def fourthBootBlock : Mmu Unit :=
  { mem := fun w => if w = 0x82000 / 8 + 3 then bootBlock 3 else 0, heap := (), tables := [],
    grants := [], trapped := false }

/-- The boot code's blocks are the kernel's alone; their pages are not. -/
theorem not_splitKeepsRights_boot : ¬SplitKeepsRights onePage fourthBootBlock 0x82000 3 2 := by
  have hword : fourthBootBlock.mem (0x82000 / 8 + 3) = bootBlock 3 := rfl
  rw [splitKeepsRights_eq ⟨by decide, by decide⟩ ⟨by decide, by decide⟩ (by decide) (by decide) (.inr rfl),
    hword]
  decide

end Mmu
end PiVOS
