-- SUMMARY: Translation table descriptors and region sizes of `mmu/reg.h`.
import PiVOS.Utils

/-!
# Translation table descriptors

A descriptor is a 64-bit word. The bit-field structures of `reg.h` are read with
`bitField` and built by placing each field at its bit; a value that is too wide
for its field is cut off, as an initializer does.

GCC shifts a bit-field of 36 bits in 36 bits, unless it is cast first, as the field of
a block is. What is read back of a table or a page is its address modulo 64 GB.
-/

namespace PiVOS

/-- The bit-field of `width` bits from bit `lo` on. -/
def bitField (lo width entry : Nat) : Nat := entry / 2 ^ lo % 2 ^ width

/-! ## Entry types -/

def mmuEmptyEntry : Nat := 0b00
def mmuBlockEntry : Nat := 0b01
def mmuTableEntry : Nat := 0b11
def mmuPageEntry : Nat := 0b11

/-- `entry & MMU_TYPE_MASK`. -/
def mmuType (entry : Nat) : Nat := bitField 0 2 entry

/-- `entry & MMU_ENTRY_VALID_MASK`. -/
def mmuEntryValid (entry : Nat) : Bool := bitField 0 1 entry = 1

/-- `entry & MMU_ENTRY_DESCRIPTOR_MASK`. -/
def mmuEntryDescriptor (entry : Nat) : Bool := bitField 1 1 entry = 1

/-! ## The 4 KB granule -/

def mmuPageSize : Nat := kbInB * 4

/-- Every level has the same number of entries. -/
def mmuNumberOfLevelEntries (_level : Nat) : Nat := 512

def mmuSizeOfLevelRegion : (level : Nat) → Nat
  | 0 => gbInB * 512
  | 1 => gbInB * 1
  | 2 => mbInB * 2
  | _ => kbInB * 4

def mmuAreBlockEntriesSupported (level : Nat) : Bool := level = 1 ∨ level = 2

/-! ## Building descriptors -/

/-- `{.AttrIndx = memory_type, .AF = 1, .AP = 0b01}`. -/
def mmuLowerAttributes (memoryType : Nat) : Nat := memoryType % 2 ^ 3 + 0b01 * 2 ^ 4 + 1 * 2 ^ 8

def mmuTableEntryBits (nextLevelTable : Nat) : Nat :=
  mmuTableEntry + nextLevelTable / 2 ^ 12 % 2 ^ 36 * 2 ^ 12

/-- A block descriptor, whose address starts at bit 30 on level 1 and at bit 21 on level 2. -/
def mmuBlockEntryBits (level address memoryType : Nat) : Nat :=
  let lowerBlockAttributes := mmuLowerAttributes memoryType % 2 ^ 10
  mmuBlockEntry + lowerBlockAttributes * 2 ^ 2 +
    if level = 1 then address / 2 ^ 30 % 2 ^ 18 * 2 ^ 30 else address / 2 ^ 21 % 2 ^ 27 * 2 ^ 21

def mmuPageEntryBits (address memoryType : Nat) : Nat :=
  let lowerAttributes := mmuLowerAttributes memoryType % 2 ^ 10
  mmuPageEntry + lowerAttributes * 2 ^ 2 + address / 2 ^ 12 % 2 ^ 36 * 2 ^ 12

/-! ## Reading descriptors -/

/-- `AttrIndx` of the lower attributes. -/
def mmuAttrIndx (entry : Nat) : Nat := bitField 2 3 entry

def mmuIsSameMemoryType (entry memoryType : Nat) : Bool := mmuAttrIndx entry = memoryType

/-- The entry with another `AttrIndx`. -/
def mmuWithMemoryType (entry memoryType : Nat) : Nat :=
  entry - mmuAttrIndx entry * 2 ^ 2 + memoryType % 2 ^ 3 * 2 ^ 2

def mmuGetAddressFromBlockEntry (entry level : Nat) : Nat :=
  if level = 1 then bitField 30 18 entry * 2 ^ 30
  else if level = 2 then bitField 21 27 entry * 2 ^ 21
  else 0

/-- `field << shift` for a bit-field of 36 bits, which keeps its width. -/
def wideShiftLeft (field shift : Nat) : Nat := field * 2 ^ shift % 2 ^ 36

def mmuGetAddressFromPageEntry (entry : Nat) : Nat := wideShiftLeft (bitField 12 36 entry) 12

def mmuGetNextLevelTableFromTableEntry (entry : Nat) : Nat := wideShiftLeft (bitField 12 36 entry) 12

/-- `field << shift` for a bit-field narrow enough to be promoted to `int`: the
result is an `int`, and its sign is extended when it becomes an address. -/
def intShiftLeft (field shift : Nat) : Nat :=
  let value := u32 (field * 2 ^ shift)
  if value < 2 ^ 31 then value else value + (2 ^ 64 - 2 ^ 32)

/-- Where the units of a split block start. -/
def mmuSplitBaseAddress (entry level : Nat) : Nat :=
  if level = 1 then intShiftLeft (bitField 30 18 entry) 30
  else if level = 2 then intShiftLeft (bitField 21 27 entry) 21
  else 0

/-! ## Basic facts -/

theorem mmuSizeOfLevelRegion_eq {level : Nat} (h : level ≤ 3) :
    mmuSizeOfLevelRegion level = 2 ^ (39 - 9 * level) := by
  match level with
  | 0 | 1 | 2 | 3 => decide

theorem mmuSizeOfLevelRegion_two : mmuSizeOfLevelRegion 2 = 2097152 := by decide

theorem mmuSizeOfLevelRegion_three : mmuSizeOfLevelRegion 3 = 4096 := by decide

theorem mmuPageSize_eq : mmuPageSize = 4096 := by decide

theorem mmuBlockEntryBits_two (address memoryType : Nat) : mmuBlockEntryBits 2 address memoryType =
    1 + (memoryType % 8 + 272) * 4 + address / 2 ^ 21 % 2 ^ 27 * 2 ^ 21 := by
  simp only [mmuBlockEntryBits, mmuBlockEntry, mmuLowerAttributes, if_neg (by decide : ¬2 = 1)]
  omega

theorem mmuPageEntryBits_eq (address memoryType : Nat) : mmuPageEntryBits address memoryType =
    3 + (memoryType % 8 + 272) * 4 + address / 2 ^ 12 % 2 ^ 36 * 2 ^ 12 := by
  simp only [mmuPageEntryBits, mmuPageEntry, mmuLowerAttributes]
  omega

theorem mmuType_eq (entry : Nat) : mmuType entry = entry % 4 := by simp [mmuType, bitField]

theorem mmuEntryValid_eq (entry : Nat) : mmuEntryValid entry = decide (entry % 2 = 1) := by
  simp [mmuEntryValid, bitField]

theorem mmuEntryDescriptor_eq (entry : Nat) :
    mmuEntryDescriptor entry = decide (entry / 2 % 2 = 1) := by
  simp [mmuEntryDescriptor, bitField]

end PiVOS
