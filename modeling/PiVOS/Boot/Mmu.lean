-- SUMMARY: The tables that `boot/mmu.S` sets up before the kernel runs.
import PiVOS.Memory.Mmu.Tree

/-!
# Boot tables

Three pages from `mmu_space_start` on: a level 0 and a level 1 table with one entry
each, and a level 2 table of 512 blocks for the first gigabyte.
-/

namespace PiVOS

/-- `MMU_TABLE_ATTR`: the valid flag and the access flag. -/
def mmuTableAttr : Nat := 1 <<< 0 ||| 1 <<< 10

/-- `TCR_VALUE`: 48-bit addresses and granules of 4 KB in both halves, ASIDs of 16 bits from `TTBR0`,
and tables and memory at addresses of 32 bits. -/
def Boot.tcrValue : BitVec 64 := BitVec.ofNat 64
  (16 <<< 0 ||| 0b00 <<< 8 ||| 0b00 <<< 10 ||| 0b00 <<< 12 ||| 0b00 <<< 14 ||| 16 <<< 16 ||| 0 <<< 22 |||
    0b00 <<< 24 ||| 0b00 <<< 26 ||| 0b00 <<< 28 ||| 0b10 <<< 30 ||| 0b000 <<< 32 ||| 1 <<< 36)

/-- The bits of physical addresses, by the field `IPS` of `TCR_EL1`. -/
def Boot.outputBits (tcr : BitVec 64) : Nat :=
  match (tcr.extractLsb' 32 3).toNat with
  | 0 => 32
  | 1 => 36
  | 2 => 40
  | 3 => 42
  | 4 => 44
  | 5 => 48
  | _ => 52

/-- Tables and memory from here on cannot be reached with the MMU on. -/
def physicalEnd : Nat := 2 ^ Boot.outputBits Boot.tcrValue

theorem physicalEnd_eq : physicalEnd = 2 ^ 32 := rfl

/-- The registers of `create_entries_loop`: `x0`, `x3` in words, and the memory. -/
structure CreateEntries where
  blockAddress : Nat
  writeAddress : Nat
  mem : Nat → Nat

namespace CreateEntries

def active (c : CreateEntries) : Bool := decide (c.blockAddress < 0x40000000)

def round (c : CreateEntries) : CreateEntries :=
  { blockAddress := c.blockAddress + 0x200000
    writeAddress := c.writeAddress + 1
    mem := Function.update c.mem c.writeAddress (c.blockAddress ||| mmuTableAttr) }

end CreateEntries

/-- `setup_tables` and `create_entries_loop`. The loop tests its condition last, but
its first round always runs. -/
def setupTables (mem : Nat → Nat) (mmuSpaceStart : Nat) : Nat → Nat :=
  let level0Table := clearKernelSpace mmuSpaceStart
  let level1Table := level0Table + 0x1000
  let level2Table := level1Table + 0x1000
  let mem := Function.update mem (level0Table / 8) (level1Table ||| 3)
  let mem := Function.update mem (level1Table / 8) (level2Table ||| 3)
  (loopWhile CreateEntries.active CreateEntries.round 512 ⟨0, level2Table / 8, mem⟩).mem

/-- The descriptor of the `m`-th block. -/
def bootBlock (m : Nat) : Nat := m * 0x200000 ||| mmuTableAttr

theorem bootBlock_eq (m : Nat) : bootBlock m = m * 2097152 + 1025 := by
  have hattr : mmuTableAttr = 1025 := by decide
  have hor := Nat.two_pow_add_eq_or_of_lt (i := 21) (b := 1025) (by decide) m
  rw [bootBlock, hattr, Nat.mul_comm, show (0x200000 : Nat) = 2 ^ 21 by decide, ← hor]

theorem isLeafEntry_bootBlock (m : Nat) : IsLeafEntry 2 (bootBlock m) := by
  refine .inl ⟨.inr rfl, ?_⟩
  rw [bootBlock_eq]
  omega

/-- `orr x1, x1, #3` makes the descriptor of a table. -/
theorem tableAddress_or {a : Nat} (h : IsTableAddress a) :
    a ||| 3 = mmuTableEntryBits (setKernelSpace a) := by
  obtain ⟨hpage, hlt⟩ := h
  have hor := Nat.two_pow_add_eq_or_of_lt (i := 12) (b := 3) (by decide) (a / 4096)
  have hmul : 2 ^ 12 * (a / 4096) = a := by omega
  rw [hmul] at hor
  rw [← hor, setKernelSpace_of_lt hlt]
  simp only [mmuTableEntryBits, mmuTableEntry, kernelSpaceMask]
  omega

/-! ## Memory -/

/-- What the loop has stored after the first blocks. -/
theorem createEntries_mem (mem : Nat → Nat) (first : Nat) (w : Nat) :
    (loopWhile CreateEntries.active CreateEntries.round 512 ⟨0, first, mem⟩).mem w =
      if first ≤ w ∧ w < first + 512 then bootBlock (w - first) else mem w := by
  let I : CreateEntries → Prop := fun c => ∃ n ≤ 512, c.blockAddress = n * 0x200000 ∧
    c.writeAddress = first + n ∧
    ∀ w, c.mem w = if first ≤ w ∧ w < first + n then bootBlock (w - first) else mem w
  have hstep : ∀ c, I c → c.active = true →
      I c.round ∧ 512 - c.round.blockAddress / 0x200000 < 512 - c.blockAddress / 0x200000 := by
    rintro c ⟨n, hn, haddress, hwrite, hmem⟩ hactive
    have hlt : c.blockAddress < 0x40000000 := of_decide_eq_true hactive
    have hround : c.round.blockAddress = c.blockAddress + 0x200000 := rfl
    refine ⟨⟨n + 1, by omega, by omega, congrArg (· + 1) hwrite, fun w => ?_⟩, by omega⟩
    have hnew : c.round.mem w =
        if w = c.writeAddress then c.blockAddress ||| mmuTableAttr else c.mem w :=
      Function.update_apply _ _ _ w
    rw [hnew, hmem]
    by_cases heq : w = c.writeAddress
    · rw [if_pos heq, if_pos (by omega), bootBlock, haddress, show w - first = n by omega]
    · by_cases hin : first ≤ w ∧ w < first + n
      · rw [if_neg heq, if_pos hin, if_pos (by omega)]
      · rw [if_neg heq, if_neg hin, if_neg (by omega)]
  have hstart : I ⟨0, first, mem⟩ :=
    ⟨0, Nat.zero_le _, (Nat.zero_mul _).symm, rfl, fun w => by rw [if_neg (by omega)]⟩
  obtain ⟨⟨n, hn, haddress, -, hmem⟩, hend⟩ := Loop.variant (n := 512) CreateEntries.active
    CreateEntries.round I (fun c => 512 - c.blockAddress / 0x200000) hstep hstart (Nat.sub_le _ _)
  have hge := of_decide_eq_false hend
  have hall : n = 512 := by omega
  rw [hmem, hall]

/-! ## The tree -/

/-- The tables of the boot code, with the root at `root`. -/
def bootTree (root : Nat) : MmuTree :=
  { node := fun level n => if level ≤ 2 ∧ n = 0 then some (root + level * 4096) else none
    leaf := fun level m => if level = 2 ∧ m < 512 then some (bootBlock m) else none }

theorem bootTree_node_eq_some {root level n a : Nat} :
    (bootTree root).node level n = some a ↔ (level ≤ 2 ∧ n = 0) ∧ a = root + level * 4096 := by
  simp only [bootTree]
  constructor
  · intro h
    split at h
    · rename_i hin
      exact ⟨hin, (Option.some.inj h).symm⟩
    · cases h
  · rintro ⟨hin, rfl⟩
    rw [if_pos hin]

theorem bootTree_node_eq_none {root level n : Nat} (h : ¬(level ≤ 2 ∧ n = 0)) :
    (bootTree root).node level n = none := if_neg h

theorem bootTree_leaf_eq_some {root level m e : Nat} :
    (bootTree root).leaf level m = some e ↔ (level = 2 ∧ m < 512) ∧ e = bootBlock m := by
  simp only [bootTree]
  constructor
  · intro h
    split at h
    · rename_i hin
      exact ⟨hin, (Option.some.inj h).symm⟩
    · cases h
  · rintro ⟨hin, rfl⟩
    rw [if_pos hin]

/-- On three cleared pages the boot code builds these tables. -/
theorem setupTables_holdsTree {mem : Nat → Nat} {mmuSpaceStart root : Nat}
    (hroot : clearKernelSpace mmuSpaceStart = root) (hpage : root % 4096 = 0)
    (hspace : root + 3 * 4096 ≤ 2 ^ 36) (hclear : ∀ w, root / 8 ≤ w → w < root / 8 + 3 * 512 → mem w = 0) :
    HoldsTree (setupTables mem mmuSpaceStart) root (bootTree root) := by
  have haddress : ∀ level, level ≤ 2 → IsTableAddress (root + level * 4096) := fun level hlevel =>
    ⟨by omega, by omega⟩
  have hword : ∀ w, setupTables mem mmuSpaceStart w =
      if root / 8 + 1024 ≤ w ∧ w < root / 8 + 1536 then bootBlock (w - (root / 8 + 1024))
      else if w = root / 8 + 512 then mmuTableEntryBits (setKernelSpace (root + 2 * 4096))
      else if w = root / 8 then mmuTableEntryBits (setKernelSpace (root + 1 * 4096))
      else mem w := by
    intro w
    have hone := tableAddress_or (haddress 1 (by decide))
    have htwo := tableAddress_or (haddress 2 (by decide))
    rw [setupTables, hroot, createEntries_mem, Function.update_apply, Function.update_apply,
      show root + 0x1000 + 0x1000 = root + 2 * 4096 by omega,
      show root + 0x1000 = root + 1 * 4096 by omega, hone, htwo,
      show (root + 2 * 4096) / 8 = root / 8 + 1024 by omega,
      show (root + 1 * 4096) / 8 = root / 8 + 512 by omega]
  constructor
  · constructor
    · intro l n a h
      obtain ⟨⟨hl, rfl⟩, rfl⟩ := bootTree_node_eq_some.mp h
      exact ⟨_, bootTree_node_eq_some.mpr ⟨⟨by omega, rfl⟩, rfl⟩⟩
    · intro l m e h
      obtain ⟨⟨rfl, hm⟩, rfl⟩ := bootTree_leaf_eq_some.mp h
      exact ⟨_, bootTree_node_eq_some.mpr ⟨⟨by omega, by omega⟩, rfl⟩⟩
    · intro l m e h
      obtain ⟨⟨rfl, hm⟩, rfl⟩ := bootTree_leaf_eq_some.mp h
      exact bootTree_node_eq_none (by omega)
  · intro n
    simp [bootTree]
  · intro level n a h
    have := (bootTree_node_eq_some.mp h).1.1
    omega
  · intro level m e h
    obtain ⟨⟨rfl, -⟩, rfl⟩ := bootTree_leaf_eq_some.mp h
    exact isLeafEntry_bootBlock m
  · intro level n a h
    obtain ⟨⟨hlevel, -⟩, rfl⟩ := bootTree_node_eq_some.mp h
    exact haddress level hlevel
  · intro level n a h
    obtain ⟨⟨hlevel, -⟩, rfl⟩ := bootTree_node_eq_some.mp h
    omega
  · intro level n level' n' a h h'
    have := bootTree_node_eq_some.mp h
    have := bootTree_node_eq_some.mp h'
    omega
  · intro level n a h i hi
    obtain ⟨⟨hlevel, rfl⟩, rfl⟩ := bootTree_node_eq_some.mp h
    rw [hword, MmuTree.slotWord]
    have hcases : level = 0 ∨ level = 1 ∨ level = 2 := by omega
    have hempty : ¬(i = 0) → level < 2 → mem ((root + level * 4096) / 8 + i) = mmuEmptyEntry :=
      fun _ hlt => hclear _ (by omega) (by omega)
    rcases hcases with rfl | rfl | rfl
    · rcases Nat.eq_zero_or_pos i with rfl | hpos
      · rw [if_neg (by omega), if_neg (by omega), if_pos (by omega)]
        rfl
      · have hnode : (bootTree root).node (0 + 1) (0 * 512 + i) = none :=
          bootTree_node_eq_none (by omega)
        rw [if_neg (by omega), if_neg (by omega), if_neg (by omega), hnode]
        exact hempty (by omega) (by decide)
    · rcases Nat.eq_zero_or_pos i with rfl | hpos
      · rw [if_neg (by omega), if_pos (by omega)]
        rfl
      · have hnode : (bootTree root).node (1 + 1) (0 * 512 + i) = none :=
          bootTree_node_eq_none (by omega)
        rw [if_neg (by omega), if_neg (by omega), if_neg (by omega), hnode]
        exact hempty (by omega) (by decide)
    · have hleaf : (bootTree root).leaf 2 (0 * 512 + i) = some (bootBlock i) :=
        bootTree_leaf_eq_some.mpr ⟨⟨rfl, by omega⟩, by rw [Nat.zero_mul, Nat.zero_add]⟩
      rw [if_pos (by omega), hleaf]
      exact congrArg bootBlock (by omega)

namespace Mmu

/-- The tables the boot code leaves, for an image whose tables are at `0x80000`. -/
def bootState : Mmu Unit :=
  { mem := setupTables (fun _ => 0) 0xFFFF000000080000, heap := (), tables := [], grants := [],
    trapped := false }

theorem bootState_holdsTree : HoldsTree bootState.mem 0x80000 (bootTree 0x80000) := by
  have hroot : clearKernelSpace 0xFFFF000000080000 = 0x80000 := by decide
  have htree : HoldsTree (setupTables (fun _ => 0) 0xFFFF000000080000) 0x80000 (bootTree 0x80000) :=
    setupTables_holdsTree hroot (by decide) (by decide) fun _ _ _ => rfl
  simp only [bootState]
  exact htree

end Mmu
end PiVOS
