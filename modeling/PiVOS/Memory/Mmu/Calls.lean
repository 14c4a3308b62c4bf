-- SUMMARY: The calls of `mmu_map_units` an insertion makes, and the table indices these calls use.
import PiVOS.Memory.Mmu.Insert

/-!
# Counts and indices of an insertion

`memory_mmu_insert` turns an address and a size into counts of pages and blocks; a
count is computed with 64 bits and passed on with 32. From address and count alone
follows which entries of the tables the mapping uses.
-/

namespace PiVOS
namespace Mmu

variable {A : Type}

/-! ## Table indices -/

/-- A call `mmu_map_units(root, 0, address, memory_type, count, ..)`, with `count` as it
is before it becomes a `uint32_t`. -/
structure MapCall (A : Type) where
  kind : UnitKind A
  address : Nat
  count : Nat

namespace MapCall

variable (call : MapCall A)

def run (pages : PageHeap A) (table : Nat) (s : Mmu A) : Mmu A :=
  s.mmuMapUnits pages call.kind table 0 call.address (u32 call.count)

/-- The state of the loop after so many rounds. -/
def rounds (pages : PageHeap A) (table : Nat) (s : Mmu A) (n : Nat) : MapCursor A :=
  loopWhile MapCursor.active (mapRound pages call.kind table 0 call.address) n ⟨u32 call.count, 0, s⟩

/-- Some round indexes a table with `i`: on the way down from the root, or for one
of the units of its batch. The loops over whole tables stay within their 512 entries. -/
def UsesIndex (pages : PageHeap A) (table : Nat) (s : Mmu A) (i : Nat) : Prop :=
  ∃ n c va, c = call.rounds pages table s n ∧ c.active ∧ va = u64 (call.address + c.offset) ∧
    ((∃ level < call.kind.destinationLevel,
        i = u32 ((forRange (descend pages) level 0 ⟨table, va, c.mmu⟩).address /
          mmuSizeOfLevelRegion level)) ∨
      ∃ tableData, tableData =
          (c.mmu.mmuTraverseAndAllocTables pages table 0 va call.kind.destinationLevel).1 ∧
        tableData.idx ≤ i ∧ i < tableData.idx + u32 (min (sub64
          (mmuNumberOfLevelEntries call.kind.destinationLevel) tableData.idx) c.count))

end MapCall

section

variable {pages : PageHeap A}

theorem descend_address (level : Nat) (d : Descent A) :
    (descend pages level d).address = d.address % mmuSizeOfLevelRegion level := by
  simp only [descend]
  split
  · rfl
  · split
    · rfl
    · rfl

/-- The index at each level of a descent is that of an entry. -/
theorem descent_index_lt {level : Nat} {d : Descent A} (hlevel : level ≤ 3)
    (haddress : d.address < 2 ^ 48) :
    u32 ((forRange (descend pages) level 0 d).address / mmuSizeOfLevelRegion level) < 512 := by
  cases level with
  | zero =>
    rw [forRange, mmuSizeOfLevelRegion_eq (Nat.zero_le 3), u32]
    omega
  | succ level =>
    have hmod : (forRange (descend pages) (level + 1) 0 d).address < mmuSizeOfLevelRegion level := by
      rw [Loop.forRange_succ_last, descend_address, Nat.zero_add,
        mmuSizeOfLevelRegion_eq (by omega : level ≤ 3)]
      exact Nat.mod_lt _ (Nat.two_pow_pos _)
    rw [mmuSizeOfLevelRegion_eq (by omega : level ≤ 3)] at hmod
    rw [mmuSizeOfLevelRegion_eq hlevel, u32]
    obtain rfl | rfl | rfl : level = 0 ∨ level = 1 ∨ level = 2 := by omega
    all_goals omega

/-- What the rounds of a call have still to do stays within its range. -/
theorem mapRounds_space {kind : UnitKind A} {table address limit : Nat} {c : MapCursor A} (n : Nat)
    (hcount : c.count < 2 ^ 32) (hspace : c.offset + c.count * kind.unitSize ≤ limit)
    (hlimit : limit < 2 ^ 64) : ∃ c', c' = loopWhile MapCursor.active
      (mapRound pages kind table 0 address) n c ∧ c'.offset + c'.count * kind.unitSize ≤ limit := by
  refine ⟨_, rfl, (Loop.invariant (I := fun c : MapCursor A => c.count < 2 ^ 32 ∧
    c.offset + c.count * kind.unitSize ≤ limit) (fun c ⟨hcount, hspace⟩ _ => ?_)
    ⟨hcount, hspace⟩ n).2⟩
  simp only [mapRound]
  generalize sub64 (mmuNumberOfLevelEntries _) _ = room
  have hunit : u32 (min room c.count) = min room c.count := u32_of_lt (by omega)
  have hle : min room c.count ≤ c.count := Nat.min_le_right _ _
  have hsum : c.count * kind.unitSize =
      min room c.count * kind.unitSize + (c.count - min room c.count) * kind.unitSize := by
    rw [← Nat.add_mul, Nat.add_sub_cancel' hle]
  rw [hunit, sub32_of_le hle, u64_of_lt (by omega)]
  omega

/-- A call within the address space indexes entries of its tables only. -/
theorem MapCall.usesIndex_lt {call : MapCall A} {table i : Nat} {s : Mmu A}
    (hlevel : call.kind.destinationLevel ≤ 3)
    (hspace : call.address + u32 call.count * call.kind.unitSize ≤ 2 ^ 48)
    (hi : call.UsesIndex pages table s i) : i < 512 := by
  obtain ⟨n, c, va, hc, hactive, rfl, huse⟩ := hi
  obtain ⟨c', hc', hleft⟩ := @mapRounds_space A pages call.kind table call.address
    (u32 call.count * call.kind.unitSize) ⟨u32 call.count, 0, s⟩ n (u32_lt _)
    (Nat.le_of_eq (Nat.zero_add _)) (by omega)
  obtain rfl : c' = c := hc'.trans hc.symm
  have hpos : 0 < c'.count := of_decide_eq_true hactive
  have hunit : 0 < call.kind.unitSize := by
    rw [UnitKind.unitSize, mmuSizeOfLevelRegion_eq hlevel]
    exact Nat.two_pow_pos _
  have hstep : 0 < c'.count * call.kind.unitSize := Nat.mul_pos hpos hunit
  have hva : u64 (call.address + c'.offset) < 2 ^ 48 := by
    rw [u64_of_lt (by omega)]
    omega
  rcases huse with ⟨level, hlt, rfl⟩ | ⟨tableData, rfl, -, hi⟩
  · exact descent_index_lt (by omega) hva
  · have hidx := @descent_index_lt A pages _ ⟨table, u64 (call.address + c'.offset), c'.mmu⟩ hlevel hva
    simp only [mmuTraverseAndAllocTables, Nat.sub_zero, Nat.zero_max, mmuNumberOfLevelEntries] at hi
    rw [sub64_of_le (Nat.le_of_lt hidx)] at hi
    have hcut : ∀ m, u32 m ≤ m := fun m => Nat.mod_le m _
    have := hcut (min (512 - u32 ((forRange (descend pages) call.kind.destinationLevel 0
      ⟨table, u64 (call.address + c'.offset), c'.mmu⟩).address /
      mmuSizeOfLevelRegion call.kind.destinationLevel)) c'.count)
    omega

/-- Every call of a sequence indexes entries of its tables only. -/
def IndicesSafe (pages : PageHeap A) (table : Nat) : Mmu A → List (MapCall A) → Prop
  | _, [] => True
  | s, call :: calls => (∀ i, call.UsesIndex pages table s i → i < 512) ∧
      IndicesSafe pages table (call.run pages table s) calls

theorem indicesSafe_of_space {table : Nat} {calls : List (MapCall A)} {s : Mmu A}
    (hcalls : ∀ call ∈ calls, call.kind.destinationLevel ≤ 3 ∧
      call.address + u32 call.count * call.kind.unitSize ≤ 2 ^ 48) :
    IndicesSafe pages table s calls := by
  induction calls generalizing s with
  | nil => trivial
  | cons call calls ih =>
    have hcall := hcalls call (List.mem_cons_self ..)
    exact ⟨fun i hi => MapCall.usesIndex_lt hcall.1 hcall.2 hi,
      ih fun call' hcall' => hcalls call' (List.mem_cons_of_mem _ hcall')⟩

end

/-! ## Insertions -/

namespace Insertion

variable (op : Insertion A)

def blockAddress : Nat := alignUp64 op.address (mmuSizeOfLevelRegion 2)

/-- The region has room for a block. -/
def HasBlock : Prop :=
  u64 (sub64 op.blockAddress op.address + mmuSizeOfLevelRegion 2) ≤ op.size

instance : Decidable op.HasBlock := inferInstanceAs (Decidable (_ ≤ _))

/-- `MIN(size, block_address - address)`. -/
def leading : Nat := min op.size (sub64 op.blockAddress op.address)

/-- `offset` where the blocks start. -/
def blockOffset : Nat := u64 (u32 op.leading * mmuPageSize)

def blocks : Nat := sub64 op.size op.blockOffset / mmuSizeOfLevelRegion 2

/-- `offset` behind the blocks. -/
def trailingOffset : Nat := u64 (op.blockOffset + u32 op.blocks * mmuSizeOfLevelRegion 2)

def trailing : Nat := sub64 op.size op.trailingOffset / mmuPageSize

/-- The calls of `mmu_map_units`; those the source leaves out have no units. -/
def calls : List (MapCall A) :=
  if op.HasBlock then
    [⟨pageUnits op.memoryType op.getPhysSpace, op.address, op.leading⟩,
      ⟨blockUnits op.memoryType op.getPhysSpace, u64 (op.address + op.blockOffset), op.blocks⟩,
      ⟨pageUnits op.memoryType op.getPhysSpace, u64 (op.address + op.trailingOffset), op.trailing⟩]
  else [⟨pageUnits op.memoryType op.getPhysSpace, op.address, op.size / mmuPageSize⟩]

/-- The subtractions made on the way, minuend first. -/
def subtractions : List (Nat × Nat) :=
  (op.blockAddress, op.address) ::
    if op.HasBlock then [(op.size, op.blockOffset), (op.size, op.trailingOffset)] else []

/-- No subtraction wraps around and no count is cut. -/
structure ArithmeticSafe : Prop where
  subtractions : ∀ minuend subtrahend, (minuend, subtrahend) ∈ op.subtractions → subtrahend ≤ minuend
  counts : ∀ call ∈ op.calls, call.count < 2 ^ 32

variable {op : Insertion A}

/-- A call that is left out when it has no units, with the offset behind them. -/
theorem ite_zero_lt_mapUnits_offset {pages : PageHeap A} {kind : UnitKind A} {s : Mmu A}
    {table address count offset offset' : Nat} (h : count = 0 → offset = offset') :
    (if 0 < count then (s.mmuMapUnits pages kind table 0 address count, offset) else (s, offset')) =
      (s.mmuMapUnits pages kind table 0 address count, offset) := by
  cases count with
  | zero => rw [h rfl, mapUnits_zero, ite_self]
  | succ count => exact if_pos (Nat.succ_pos count)

/-- The calls for a region with room for a block, by the values on the way. -/
theorem apply_of_room {pages : PageHeap A} {table : Nat} {s : Mmu A}
    {blockAddress leading blockOffset blocks trailingOffset trailing : Nat}
    (hblockAddress : blockAddress = alignUp64 op.address (mmuSizeOfLevelRegion 2))
    (hroom : u64 (sub64 blockAddress op.address + mmuSizeOfLevelRegion 2) ≤ op.size)
    (hleading : leading = min op.size (sub64 blockAddress op.address))
    (hblockOffset : blockOffset = u64 (u32 leading * mmuPageSize))
    (hblocks : blocks = sub64 op.size blockOffset / mmuSizeOfLevelRegion 2)
    (htrailingOffset : trailingOffset = u64 (blockOffset + u32 blocks * mmuSizeOfLevelRegion 2))
    (htrailing : trailing = sub64 op.size trailingOffset / mmuPageSize) :
    op.apply pages table s =
      ((s.mmuMapUnits pages (pageUnits op.memoryType op.getPhysSpace) table 0 op.address
          (u32 leading)).mmuMapUnits pages (blockUnits op.memoryType op.getPhysSpace) table 0
          (u64 (op.address + blockOffset)) (u32 blocks)).mmuMapUnits pages
        (pageUnits op.memoryType op.getPhysSpace) table 0 (u64 (op.address + trailingOffset))
        (u32 trailing) := by
  have hzeroOffset : ∀ count, count = 0 → u64 (count * mmuPageSize) = 0 := by
    rintro count rfl
    rw [Nat.zero_mul]
    rfl
  simp only [apply, memoryMmuInsert]
  rw [← hblockAddress, ← hleading, if_pos hroom, ite_zero_lt_mapUnits_offset (hzeroOffset _)]
  simp only [← hblockOffset, ← hblocks]
  rw [ite_zero_lt_mapUnits_offset, ite_zero_lt_mapUnits]
  · simp only [← htrailingOffset, ← htrailing]
  · intro hzero
    rw [hzero, Nat.zero_mul, Nat.add_zero, hblockOffset, u64_of_lt (u64_lt _)]

/-- An insertion is its calls of `mmu_map_units`. -/
theorem apply_eq_foldl (pages : PageHeap A) (table : Nat) (s : Mmu A) :
    op.apply pages table s = op.calls.foldl (fun s call => call.run pages table s) s := by
  by_cases hblock : op.HasBlock
  · rw [calls, if_pos hblock, List.foldl_cons, List.foldl_cons, List.foldl_cons, List.foldl_nil]
    exact @apply_of_room A op pages table s op.blockAddress op.leading op.blockOffset op.blocks
      op.trailingOffset op.trailing rfl hblock rfl rfl rfl rfl rfl
  · have hshort : ¬u64 (sub64 (alignUp64 op.address (mmuSizeOfLevelRegion 2)) op.address +
        mmuSizeOfLevelRegion 2) ≤ op.size := hblock
    rw [calls, if_neg hblock, apply, memoryMmuInsert, List.foldl_cons, List.foldl_nil]
    exact if_neg hshort

section Aligned

variable (haligned : op.address % 2097152 = 0) (hspace : op.address + op.size ≤ 2 ^ 48)

include haligned hspace

theorem blockAddress_of_aligned : op.blockAddress = op.address := by
  rw [blockAddress, mmuSizeOfLevelRegion_two, show 2097152 = 2 ^ 21 by rfl,
    alignUp64_two_pow (by decide) (by omega)]
  omega

theorem leading_of_aligned : op.leading = 0 := by
  rw [leading, blockAddress_of_aligned haligned hspace, sub64_of_le (Nat.le_refl _), Nat.sub_self,
    Nat.min_zero]

theorem blockOffset_of_aligned : op.blockOffset = 0 := by
  rw [blockOffset, leading_of_aligned haligned hspace]
  decide

theorem blocks_of_aligned : op.blocks = op.size / 2097152 := by
  rw [blocks, blockOffset_of_aligned haligned hspace, mmuSizeOfLevelRegion_two,
    sub64_of_le (Nat.zero_le _), Nat.sub_zero]

theorem trailingOffset_of_aligned : op.trailingOffset = op.size / 2097152 * 2097152 := by
  rw [trailingOffset, blockOffset_of_aligned haligned hspace, blocks_of_aligned haligned hspace,
    mmuSizeOfLevelRegion_two, u32_of_lt (by omega), Nat.zero_add, u64_of_lt (by omega)]

theorem trailing_of_aligned : op.trailing = op.size % 2097152 / 4096 := by
  rw [trailing, trailingOffset_of_aligned haligned hspace, mmuPageSize_eq, sub64_of_le (by omega)]
  omega

/-- The arithmetic for a region that starts at a block is safe. -/
theorem arithmeticSafe_of_aligned (hsize : op.size < 2 ^ 44) : op.ArithmeticSafe := by
  constructor
  · intro minuend subtrahend hmem
    rw [subtractions, List.mem_cons] at hmem
    rcases hmem with heq | hmem
    · obtain ⟨rfl, rfl⟩ := Prod.mk.inj heq
      exact Nat.le_of_eq (blockAddress_of_aligned haligned hspace).symm
    · split at hmem
      · simp only [List.mem_cons, List.not_mem_nil, or_false, Prod.mk.injEq] at hmem
        rcases hmem with ⟨rfl, rfl⟩ | ⟨rfl, rfl⟩
        · rw [blockOffset_of_aligned haligned hspace]
          exact Nat.zero_le _
        · rw [trailingOffset_of_aligned haligned hspace]
          exact Nat.div_mul_le_self _ _
      · cases hmem
  · intro call hcall
    rw [calls] at hcall
    split at hcall
    · simp only [List.mem_cons, List.not_mem_nil, or_false] at hcall
      rcases hcall with rfl | rfl | rfl
      · show op.leading < 2 ^ 32
        rw [leading_of_aligned haligned hspace]
        exact Nat.two_pow_pos 32
      · show op.blocks < 2 ^ 32
        rw [blocks_of_aligned haligned hspace]
        omega
      · show op.trailing < 2 ^ 32
        rw [trailing_of_aligned haligned hspace]
        omega
    · obtain rfl := List.mem_singleton.mp hcall
      show op.size / mmuPageSize < 2 ^ 32
      rw [mmuPageSize_eq]
      omega

/-- Its calls stay within it. -/
theorem calls_space {call : MapCall A} (hcall : call ∈ op.calls) :
    call.kind.destinationLevel ≤ 3 ∧
      call.address + u32 call.count * call.kind.unitSize ≤ 2 ^ 48 := by
  have hpage : (pageUnits op.memoryType op.getPhysSpace).unitSize = 4096 := mmuSizeOfLevelRegion_three
  have hblock : (blockUnits op.memoryType op.getPhysSpace).unitSize = 2097152 :=
    mmuSizeOfLevelRegion_two
  have hcut : ∀ m, u32 m ≤ m := fun m => Nat.mod_le m _
  rw [calls] at hcall
  split at hcall
  · simp only [List.mem_cons, List.not_mem_nil, or_false] at hcall
    rcases hcall with rfl | rfl | rfl
    · refine ⟨Nat.le_refl 3, ?_⟩
      show op.address + u32 op.leading * (pageUnits op.memoryType op.getPhysSpace).unitSize ≤ 2 ^ 48
      rw [leading_of_aligned haligned hspace, show u32 0 = 0 from rfl, Nat.zero_mul, Nat.add_zero]
      omega
    · refine ⟨Nat.le_succ 2, ?_⟩
      show u64 (op.address + op.blockOffset) +
        u32 op.blocks * (blockUnits op.memoryType op.getPhysSpace).unitSize ≤ 2 ^ 48
      have := hcut (op.size / 2097152)
      rw [blocks_of_aligned haligned hspace, blockOffset_of_aligned haligned hspace, hblock,
        u64_of_lt (by omega)]
      omega
    · refine ⟨Nat.le_refl 3, ?_⟩
      show u64 (op.address + op.trailingOffset) +
        u32 op.trailing * (pageUnits op.memoryType op.getPhysSpace).unitSize ≤ 2 ^ 48
      have := hcut (op.size % 2097152 / 4096)
      rw [trailing_of_aligned haligned hspace, trailingOffset_of_aligned haligned hspace, hpage,
        u64_of_lt (by omega)]
      omega
  · obtain rfl := List.mem_singleton.mp hcall
    refine ⟨Nat.le_refl 3, ?_⟩
    show op.address + u32 (op.size / mmuPageSize) *
      (pageUnits op.memoryType op.getPhysSpace).unitSize ≤ 2 ^ 48
    have := hcut (op.size / 4096)
    rw [mmuPageSize_eq, hpage]
    omega

end Aligned

end Insertion

end Mmu
end PiVOS
