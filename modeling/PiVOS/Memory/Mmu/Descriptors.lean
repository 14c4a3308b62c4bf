-- SUMMARY: Writing and reading descriptors: encoders and decoders are inverse, fields are apart.
import PiVOS.Memory.Mmu

/-!
# Descriptors

A descriptor that one of the three encoders writes is read back by the decoders:
the address by the one that matches, the kind by the two type bits, the memory type
by `mmu_is_same_memory_type`. Another memory type goes into its own three bits.
-/

namespace PiVOS

/-- What a descriptor stands for, which depends on its level. -/
inductive EntryKind
  | empty | table | block | page | reserved
deriving DecidableEq

/-- The kind by the two type bits, as the mapper and the destroyer tell them apart. -/
def entryKind (level entry : Nat) : EntryKind :=
  if !mmuEntryValid entry then .empty
  else if mmuEntryDescriptor entry then if level = 3 then .page else .table
  else if mmuAreBlockEntriesSupported level then .block else .reserved

theorem entryKind_congr {level e e' : Nat} (h : e' % 4 = e % 4) :
    entryKind level e' = entryKind level e := by
  have hvalid : mmuEntryValid e' = mmuEntryValid e := by
    rw [mmuEntryValid_eq, mmuEntryValid_eq, show e' % 2 = e % 2 by omega]
  have hdescriptor : mmuEntryDescriptor e' = mmuEntryDescriptor e := by
    rw [mmuEntryDescriptor_eq, mmuEntryDescriptor_eq, show e' / 2 % 2 = e / 2 % 2 by omega]
  rw [entryKind, entryKind, hvalid, hdescriptor]

theorem entryKind_of_three {e : Nat} (h : e % 4 = 3) (level : Nat) :
    entryKind level e = if level = 3 then .page else .table := by
  rw [entryKind_congr (h.trans (by decide : 3 = 3 % 4))]
  rfl

theorem entryKind_of_one {level e : Nat} (h : e % 4 = 1) (hlevel : level = 1 ∨ level = 2) :
    entryKind level e = .block := by
  rw [entryKind_congr (h.trans (by decide : 1 = 1 % 4))]
  obtain rfl | rfl := hlevel <;> rfl

/-! ## Attributes -/

/-- The source reads `AttrIndx` in the ten lower attributes it takes out first. -/
theorem mmuAttrIndx_eq (entry : Nat) : mmuAttrIndx entry = bitField 0 3 (bitField 2 10 entry) := by
  simp only [mmuAttrIndx, bitField]
  omega

/-- And it puts them back with another `AttrIndx`. -/
theorem mmuWithMemoryType_eq (entry memoryType : Nat) :
    mmuWithMemoryType entry memoryType =
      entry - bitField 2 10 entry * 2 ^ 2 +
        (bitField 2 10 entry - bitField 0 3 (bitField 2 10 entry) + memoryType % 2 ^ 3) * 2 ^ 2 := by
  simp only [mmuWithMemoryType, mmuAttrIndx, bitField]
  omega

theorem mmuIsSameMemoryType_iff {entry memoryType : Nat} (h : mmuAttrIndx entry = memoryType)
    (other : Nat) : mmuIsSameMemoryType entry other ↔ other = memoryType := by
  rw [mmuIsSameMemoryType, h, decide_eq_true_iff, eq_comm]

/-- A field that is apart from `AttrIndx` does not change with it. -/
theorem bitField_withMemoryType (entry memoryType : Nat) {lo width : Nat}
    (h : lo + width ≤ 2 ∨ 5 ≤ lo) :
    bitField lo width (mmuWithMemoryType entry memoryType) = bitField lo width entry := by
  have hlow : mmuWithMemoryType entry memoryType % 4 = entry % 4 := by
    simp only [mmuWithMemoryType, mmuAttrIndx, bitField]
    omega
  have hhigh : mmuWithMemoryType entry memoryType / 32 = entry / 32 := by
    simp only [mmuWithMemoryType, mmuAttrIndx, bitField]
    omega
  rcases h with h | h
  · have hdvd : 2 ^ lo * 2 ^ width ∣ 4 := by
      rw [← Nat.pow_add]
      exact Nat.pow_dvd_pow 2 h
    rw [bitField, bitField, ← Nat.mod_mul_right_div_self, ← Nat.mod_mul_right_div_self,
      ← Nat.mod_mod_of_dvd _ hdvd, hlow, Nat.mod_mod_of_dvd _ hdvd]
  · have hpow : 2 ^ lo = 32 * 2 ^ (lo - 5) := by
      rw [show 32 = 2 ^ 5 from rfl, ← Nat.pow_add, Nat.add_sub_cancel' h]
    rw [bitField, bitField, hpow, ← Nat.div_div_eq_div_mul, ← Nat.div_div_eq_div_mul, hhigh]

theorem mmuAttrIndx_withMemoryType {entry memoryType : Nat} (h : memoryType < 8) :
    mmuAttrIndx (mmuWithMemoryType entry memoryType) = memoryType := by
  simp only [mmuWithMemoryType, mmuAttrIndx, bitField]
  omega

/-! ## Round trips -/

section RoundTrips

variable {address memoryType : Nat} (hlt : address < 2 ^ 32)

include hlt

theorem pageEntry_roundTrip (halign : mmuPageSize ∣ address) (htype : memoryType < 8) :
    mmuGetAddressFromPageEntry (mmuPageEntryBits address memoryType) = address ∧
      mmuPageEntryBits address memoryType % 4 = 3 ∧
      mmuAttrIndx (mmuPageEntryBits address memoryType) = memoryType := by
  obtain ⟨k, rfl⟩ := halign
  rw [mmuPageSize_eq] at hlt ⊢
  simp only [mmuGetAddressFromPageEntry, wideShiftLeft, mmuAttrIndx, bitField, mmuPageEntryBits_eq]
  omega

theorem blockEntry_roundTrip {level : Nat} (hlevel : level = 1 ∨ level = 2)
    (halign : mmuSizeOfLevelRegion level ∣ address) (htype : memoryType < 8) :
    mmuGetAddressFromBlockEntry (mmuBlockEntryBits level address memoryType) level = address ∧
      mmuBlockEntryBits level address memoryType % 4 = 1 ∧
      mmuAttrIndx (mmuBlockEntryBits level address memoryType) = memoryType := by
  obtain ⟨k, rfl⟩ := halign
  obtain rfl | rfl := hlevel
  · rw [show mmuSizeOfLevelRegion 1 = 1073741824 from rfl] at hlt ⊢
    simp only [mmuGetAddressFromBlockEntry, mmuAttrIndx, bitField, mmuBlockEntryBits, mmuBlockEntry,
      mmuLowerAttributes, if_true]
    omega
  · rw [mmuSizeOfLevelRegion_two] at hlt ⊢
    simp only [mmuGetAddressFromBlockEntry, mmuAttrIndx, bitField, mmuBlockEntryBits_two,
      if_neg (by decide : ¬2 = 1), if_true]
    omega

/-- The bits that make a pointer a kernel pointer are cut off. -/
theorem tableEntry_roundTrip (halign : mmuPageSize ∣ address) {pointer : Nat}
    (hpointer : pointer = address ∨ pointer = setKernelSpace address) :
    mmuGetNextLevelTableFromTableEntry (mmuTableEntryBits pointer) = address ∧
      mmuTableEntryBits pointer % 4 = 3 := by
  have hclear : pointer % 2 ^ 48 = address := by
    rw [← clearKernelSpace_eq]
    rcases hpointer with rfl | rfl
    · exact clearKernelSpace_of_lt (hlt.trans (by decide))
    · exact clearKernelSpace_setKernelSpace (hlt.trans (by decide))
  obtain ⟨k, rfl⟩ := halign
  rw [mmuPageSize_eq] at hlt hclear ⊢
  simp only [mmuGetNextLevelTableFromTableEntry, wideShiftLeft, mmuTableEntryBits, mmuTableEntry, bitField]
  omega

end RoundTrips

/-! ## In a table -/

namespace Mmu

variable {A : Type} {s : Mmu A} {table idx : Nat}

@[simp] theorem read_write (s : Mmu A) (table idx entry : Nat) :
    (s.write table idx entry).read table idx = entry := Function.update_self ..

/-- The memory types are written into the slot one after the other. -/
def overrideAll (s : Mmu A) (table idx : Nat) (memoryTypes : List Nat) : Mmu A :=
  memoryTypes.foldl (fun s memoryType => s.mmuOverrideMemoryType table idx memoryType) s

/-- What is left of an entry when only its memory type may have changed. -/
structure SameButType (entry entry' : Nat) : Prop where
  fields : ∀ lo width, lo + width ≤ 2 ∨ 5 ≤ lo → bitField lo width entry' = bitField lo width entry
  page : mmuGetAddressFromPageEntry entry' = mmuGetAddressFromPageEntry entry
  block : ∀ level, mmuGetAddressFromBlockEntry entry' level = mmuGetAddressFromBlockEntry entry level
  kind : ∀ level, entryKind level entry' = entryKind level entry

theorem SameButType.of_fields {entry entry' : Nat}
    (h : ∀ lo width, lo + width ≤ 2 ∨ 5 ≤ lo → bitField lo width entry' = bitField lo width entry) :
    SameButType entry entry' where
  fields := h
  page := by rw [mmuGetAddressFromPageEntry, mmuGetAddressFromPageEntry, h 12 36 (by decide)]
  block level := by
    rw [mmuGetAddressFromBlockEntry, mmuGetAddressFromBlockEntry, h 30 18 (by decide),
      h 21 27 (by decide)]
  kind level := by
    have hkind := h 0 2 (by decide)
    simp only [bitField, Nat.pow_zero, Nat.div_one] at hkind
    exact entryKind_congr hkind

/-- After any overrides the slot has the last memory type, and otherwise what it had. -/
theorem overrideAll_spec (s : Mmu A) (table idx : Nat) {memoryTypes : List Nat}
    (h : ∀ memoryType ∈ memoryTypes, memoryType < 8) :
    SameButType (s.read table idx) ((s.overrideAll table idx memoryTypes).read table idx) ∧
      mmuAttrIndx ((s.overrideAll table idx memoryTypes).read table idx) =
        memoryTypes.getLast?.getD (mmuAttrIndx (s.read table idx)) := by
  induction memoryTypes using List.reverseRecOn with
  | nil => exact ⟨.of_fields fun _ _ _ => rfl, rfl⟩
  | append_singleton memoryTypes memoryType ih =>
    obtain ⟨hsame, -⟩ := ih fun m hm => h m (List.mem_append_left _ hm)
    have hread : (s.overrideAll table idx (memoryTypes ++ [memoryType])).read table idx =
        mmuWithMemoryType ((s.overrideAll table idx memoryTypes).read table idx) memoryType := by
      rw [overrideAll, List.foldl_append]
      exact read_write ..
    rw [hread]
    refine ⟨.of_fields fun lo width hapart => ?_, ?_⟩
    · rw [bitField_withMemoryType _ _ hapart, hsame.fields lo width hapart]
    · rw [mmuAttrIndx_withMemoryType (h memoryType (by simp)), List.getLast?_concat]
      rfl

/-- Encoders and decoders are inverse and keep the fields apart. What is written for
a page, a block or a table below 4 GB gives back its address, its kind and its memory
type, and another memory type changes nothing else, however often it is overridden. -/
theorem descriptors_roundTrip (s : Mmu A) (table idx : Nat) :
    (∀ address memoryType, address < 2 ^ 32 → mmuPageSize ∣ address → memoryType < 8 →
      let entry := (s.mmuCreatePageEntry table idx 3 address memoryType).read table idx
      mmuGetAddressFromPageEntry entry = address ∧ entryKind 3 entry = .page ∧
        ∀ other, mmuIsSameMemoryType entry other ↔ other = memoryType) ∧
    (∀ level address memoryType, level = 1 ∨ level = 2 → address < 2 ^ 32 →
      mmuSizeOfLevelRegion level ∣ address → memoryType < 8 →
      let entry := (s.mmuCreateBlockEntry table idx level address memoryType).read table idx
      mmuGetAddressFromBlockEntry entry level = address ∧ entryKind level entry = .block ∧
        ∀ other, mmuIsSameMemoryType entry other ↔ other = memoryType) ∧
    (∀ level address pointer, level < 3 → address < 2 ^ 32 → mmuPageSize ∣ address →
      pointer = address ∨ pointer = setKernelSpace address →
      let entry := (s.mmuCreateTableEntry table idx level pointer).read table idx
      mmuGetNextLevelTableFromTableEntry entry = address ∧ entryKind level entry = .table) ∧
    ∀ memoryTypes : List Nat, (∀ memoryType ∈ memoryTypes, memoryType < 8) →
      let entry := (s.overrideAll table idx memoryTypes).read table idx
      SameButType (s.read table idx) entry ∧
        mmuAttrIndx entry = memoryTypes.getLast?.getD (mmuAttrIndx (s.read table idx)) := by
  refine ⟨fun address memoryType hlt halign htype => ?_,
    fun level address memoryType hlevel hlt halign htype => ?_,
    fun level address pointer hlevel hlt halign hpointer => ?_,
    fun memoryTypes htypes => overrideAll_spec s table idx htypes⟩
  · obtain ⟨haddress, hkind, hattr⟩ := pageEntry_roundTrip hlt halign htype
    simp only [mmuCreatePageEntry, read_write]
    exact ⟨haddress, entryKind_of_three hkind 3, mmuIsSameMemoryType_iff hattr⟩
  · obtain ⟨haddress, hkind, hattr⟩ := blockEntry_roundTrip hlt hlevel halign htype
    simp only [mmuCreateBlockEntry, read_write]
    exact ⟨haddress, entryKind_of_one hkind hlevel, mmuIsSameMemoryType_iff hattr⟩
  · obtain ⟨haddress, hkind⟩ := tableEntry_roundTrip hlt halign hpointer
    simp only [mmuCreateTableEntry, read_write]
    exact ⟨haddress, (entryKind_of_three hkind level).trans (if_neg (by omega))⟩

/-- Memory that holds nothing yet, and an allocator without a state. -/
def nothingMapped : Mmu Unit :=
  { mem := fun _ => 0, heap := (), tables := [], grants := [], trapped := false }

/-- A block of level 2 with the memory type of normal memory. -/
theorem descriptors_roundTrip_nothingMapped :
    let entry := (nothingMapped.mmuCreateBlockEntry 0x1000 7 2 0x600000 1).read 0x1000 7
    mmuGetAddressFromBlockEntry entry 2 = 0x600000 ∧ entryKind 2 entry = .block ∧
      ∀ other, mmuIsSameMemoryType entry other ↔ other = 1 :=
  (descriptors_roundTrip nothingMapped 0x1000 7).2.1 2 0x600000 1 (by decide) (by decide) (by decide)
    (by decide)

end Mmu

end PiVOS
