-- SUMMARY: Destroying trees of tables: what is given back, and the trees that are read past an end.
import PiVOS.Memory.Mmu.Insert
import Mathlib.Data.List.Nodup

/-!
# Destroying a tree

`mmu_destroy_entry` goes through a tree of tables with a stack of its own. A table is
left when its last entry was done, which is asked about the table on top of the stack
only: after a table in the last entry of another one, nobody asks about the other one.
-/

namespace PiVOS

/-! ## The parts of a tree -/

/-- What the destruction of a tree gives back: its tables, and what its leaves map. -/
inductive TreePart
  | table (level n : Nat)
  | leaf (level m : Nat)
deriving DecidableEq

namespace MmuTree

variable (t : MmuTree)

def HasPart : TreePart → Prop
  | .table level n => t.node level n ≠ none
  | .leaf level m => t.leaf level m ≠ none

/-- The call that gives a part back: a table by its kernel pointer, memory by its address. -/
def partCall : TreePart → Nat × Nat
  | .table level n => (setKernelSpace ((t.node level n).getD 0), 1)
  | .leaf level m => (outputAddress level ((t.leaf level m).getD 0), regionSize level / mmuPageSize)

/-- The parts of the subtree of table `n` of a level, over `levels` levels: what the
slots lead to, in order, and the table itself. -/
def parts : (levels level n : Nat) → List TreePart
  | 0, _, _ => []
  | levels + 1, level, n =>
    (List.range 512).flatMap (fun i =>
      match t.leaf level (n * 512 + i), t.node (level + 1) (n * 512 + i) with
      | some _, _ => [.leaf level (n * 512 + i)]
      | none, some _ => parts levels (level + 1) (n * 512 + i)
      | none, none => []) ++ [.table level n]

/-- What slot `m` of a level leads to. -/
def slotParts (levels level m : Nat) : List TreePart :=
  match t.leaf level m, t.node (level + 1) m with
  | some _, _ => [.leaf level m]
  | none, some _ => t.parts levels (level + 1) m
  | none, none => []

/-- What the slots of table `n` from `i` on lead to, and the table itself. -/
def partsFrom (levels level n i count : Nat) : List TreePart :=
  (List.range' i count).flatMap (fun i => t.slotParts levels level (n * 512 + i)) ++ [.table level n]

theorem parts_succ (levels level n : Nat) :
    t.parts (levels + 1) level n = t.partsFrom levels level n 0 512 := by
  rw [parts, partsFrom, List.range_eq_range']
  rfl

theorem partsFrom_succ (levels level n i count : Nat) : t.partsFrom levels level n i (count + 1) =
    t.slotParts levels level (n * 512 + i) ++ t.partsFrom levels level n (i + 1) count := by
  rw [partsFrom, List.range'_succ, List.flatMap_cons, List.append_assoc, partsFrom]

/-- No table of the subtree has a table in its last slot. -/
def LastFree : (levels level n : Nat) → Prop
  | 0, _, _ => True
  | levels + 1, level, n => t.node (level + 1) (n * 512 + 511) = none ∧
    ∀ i < 512, t.node (level + 1) (n * 512 + i) ≠ none → LastFree levels (level + 1) (n * 512 + i)

/-- Every page lies below 64 GB, where its descriptor gives its address back. -/
def PagesLow : Prop := ∀ m e, t.leaf 3 m = some e → outputAddress 3 e < 2 ^ 36

end MmuTree

namespace Mmu

variable {A : Type} (pages : PageHeap A)

/-! ## Runs of the loop -/

/-- The allocator after the parts were given back, one after the other. -/
def heapAfter (t : MmuTree) (heap : A) (parts : List TreePart) : A :=
  parts.foldl (fun heap part => pages.pagesDealloc heap (t.partCall part).1 (t.partCall part).2) heap

def release (t : MmuTree) (s : Mmu A) (parts : List TreePart) : Mmu A :=
  { s with heap := heapAfter pages t s.heap parts }

theorem release_append (t : MmuTree) (s : Mmu A) (parts parts' : List TreePart) :
    release pages t s (parts ++ parts') = release pages t (release pages t s parts) parts' := by
  rw [release, heapAfter, List.foldl_append]
  rfl

/-- At most `bound` rounds lead from `c` to `c'`. -/
def Runs (bound : Nat) (c c' : DestroyCursor A) : Prop :=
  ∃ k ≤ bound, ∀ rounds, destroyLoop pages (k + rounds) c = destroyLoop pages rounds c'

/-- After at most `bound` rounds a table is read past its end. -/
def Fails (bound : Nat) (c : DestroyCursor A) : Prop :=
  ∃ k ≤ bound, ∀ rounds, destroyLoop pages (k + rounds) c = .error .outOfBounds

variable {pages} {c c' c'' : DestroyCursor A} {bound bound' : Nat}

theorem Runs.refl (c : DestroyCursor A) : Runs pages 0 c c :=
  ⟨0, Nat.le_refl 0, fun _ => by rw [Nat.zero_add]⟩

theorem Runs.trans (h : Runs pages bound c c') (h' : Runs pages bound' c' c'') :
    Runs pages (bound + bound') c c'' := by
  obtain ⟨k, hle, hk⟩ := h
  obtain ⟨k', hle', hk'⟩ := h'
  exact ⟨k + k', Nat.add_le_add hle hle', fun rounds => by rw [Nat.add_assoc, hk, hk']⟩

theorem Runs.fails (h : Runs pages bound c c') (h' : Fails pages bound' c') :
    Fails pages (bound + bound') c := by
  obtain ⟨k, hle, hk⟩ := h
  obtain ⟨k', hle', hk'⟩ := h'
  exact ⟨k + k', Nat.add_le_add hle hle', fun rounds => by rw [Nat.add_assoc, hk, hk']⟩

theorem destroyLoop_succ (rounds : Nat) (top : MmuEntryInfo) (rest : List MmuEntryInfo) (s : Mmu A) :
    destroyLoop pages (rounds + 1) ⟨top :: rest, s⟩ =
      (destroySlot pages top rest s).bind fun c => destroyLoop pages rounds (leaveTable pages c) :=
  rfl

theorem Runs.step {top : MmuEntryInfo} {rest : List MmuEntryInfo} {s : Mmu A}
    (h : destroySlot pages top rest s = .ok c) : Runs pages 1 ⟨top :: rest, s⟩ (leaveTable pages c) :=
  ⟨1, Nat.le_refl 1, fun rounds => by
    rw [Nat.add_comm, destroyLoop_succ, h]
    rfl⟩

theorem leaveTable_of_lt {table level idx : Nat} (h : idx < 512) (rest : List MmuEntryInfo)
    (s : Mmu A) :
    leaveTable pages ⟨⟨table, idx, level⟩ :: rest, s⟩ = ⟨⟨table, idx, level⟩ :: rest, s⟩ :=
  if_neg (Nat.ne_of_lt h)

/-- A table whose entries are all done, on top of the stack at the start of a round. -/
theorem Fails.past_end {table level idx : Nat} (h : 512 ≤ idx) (rest : List MmuEntryInfo)
    (s : Mmu A) :
    Fails pages 1 ⟨⟨table, idx, level⟩ :: rest, s⟩ := by
  have hslot : destroySlot pages ⟨table, idx, level⟩ rest s = .error .outOfBounds := if_pos h
  refine ⟨1, Nat.le_refl 1, fun rounds => ?_⟩
  rw [Nat.add_comm, destroyLoop_succ, hslot]
  rfl

/-! ## One slot -/

section Slot

variable {mem : Nat → Nat} {root : Nat} {t : MmuTree}

theorem decode_leaf {level e : Nat} (h : IsLeafEntry level e)
    (hlow : level = 3 → outputAddress 3 e < 2 ^ 36) :
    mmuEntryValid e = true ∧
      (level = 3 → mmuEntryDescriptor e = true ∧ mmuGetAddressFromPageEntry e = outputAddress 3 e) ∧
      (level ≠ 3 → mmuEntryDescriptor e = false ∧
        mmuGetAddressFromBlockEntry e level = outputAddress level e) := by
  rw [mmuEntryValid_eq, mmuEntryDescriptor_eq]
  refine ⟨decide_eq_true h.valid, fun hthree => ?_, fun hne => ?_⟩
  · rcases h with ⟨hlevel, -⟩ | ⟨-, he⟩
    · omega
    · exact ⟨decide_eq_true (by omega), Nat.mod_eq_of_lt (hlow hthree)⟩
  · rcases h with ⟨hlevel, he⟩ | ⟨hthree, -⟩
    · refine ⟨decide_eq_false (by omega), ?_⟩
      rcases hlevel with rfl | rfl <;> rfl
    · exact absurd hthree hne

/-- Memory holds the tables of the tree but for the root. -/
def HoldsBelow (t : MmuTree) (mem : Nat → Nat) : Prop :=
  ∀ level n a, 1 ≤ level → t.node level n = some a →
    ∀ i < 512, mem (a / 8 + i) = t.slotWord level (n * 512 + i)

variable (h : HoldsTree mem root t) {s : Mmu A} (hs : HoldsBelow t s.mem) {level n a i : Nat}
  {rest : List MmuEntryInfo} (hlevel : 1 ≤ level) (hnode : t.node level n = some a) (hi : i < 512)

include h hs hlevel hnode hi

theorem destroySlot_of_leaf (hlow : t.PagesLow) {e : Nat} (hleaf : t.leaf level (n * 512 + i) = some e) :
    destroySlot pages ⟨setKernelSpace a, i, level⟩ rest s =
      .ok ⟨⟨setKernelSpace a, i + 1, level⟩ :: rest,
        release pages t s [.leaf level (n * 512 + i)]⟩ := by
  have hread : s.read (setKernelSpace a) i = e := by
    rw [read_eq (h.address hnode), hs level n a hlevel hnode i hi, MmuTree.slotWord, hleaf]
  have hcall : t.partCall (.leaf level (n * 512 + i)) =
      (outputAddress level e, regionSize level / mmuPageSize) := by
    rw [MmuTree.partCall, hleaf]
    rfl
  obtain ⟨hvalid, hpage, hblock⟩ := decode_leaf (h.leaf_entry hleaf)
    fun hthree => hlow _ e (hthree ▸ hleaf)
  have hle := h.depth hnode
  have hsize : u32 (mmuSizeOfLevelRegion level / mmuPageSize) = regionSize level / mmuPageSize := by
    obtain rfl | rfl | rfl : level = 1 ∨ level = 2 ∨ level = 3 := by omega
    all_goals decide
  have hrelease : release pages t s [.leaf level (n * 512 + i)] =
      s.deallocPages pages (outputAddress level e) (regionSize level / mmuPageSize) := by
    rw [release, heapAfter, List.foldl_cons, hcall]
    rfl
  simp only [destroySlot, mmuNumberOfLevelEntries, Nat.not_le.mpr hi, hread, hvalid, hrelease,
    Bool.not_true, Bool.false_eq_true, if_false]
  by_cases hthree : level = 3
  · obtain ⟨hdescriptor, haddress⟩ := hpage hthree
    subst hthree
    simp only [hdescriptor, if_true, mmuDestroyPageEntry, haddress]
    rfl
  · obtain ⟨hdescriptor, haddress⟩ := hblock hthree
    simp only [hdescriptor, Bool.false_eq_true, if_false, mmuDestroyBlockEntry, haddress, hsize]

theorem destroySlot_of_empty (hleaf : t.leaf level (n * 512 + i) = none)
    (hbelow : t.node (level + 1) (n * 512 + i) = none) :
    destroySlot pages ⟨setKernelSpace a, i, level⟩ rest s =
      .ok ⟨⟨setKernelSpace a, i + 1, level⟩ :: rest, s⟩ := by
  have hread : s.read (setKernelSpace a) i = 0 := by
    rw [read_eq (h.address hnode), hs level n a hlevel hnode i hi, MmuTree.slotWord, hleaf, hbelow]
    rfl
  have hvalid : mmuEntryValid 0 = false := by decide
  simp only [destroySlot, mmuNumberOfLevelEntries, Nat.not_le.mpr hi, hread, hvalid, Bool.not_false,
    if_true, if_false]

theorem destroySlot_of_table {b : Nat} (hbelow : t.node (level + 1) (n * 512 + i) = some b)
    (hstack : rest.length + 1 ≤ level) :
    destroySlot pages ⟨setKernelSpace a, i, level⟩ rest s =
      .ok ⟨⟨setKernelSpace b, 0, level + 1⟩ :: ⟨setKernelSpace a, i + 1, level⟩ :: rest, s⟩ := by
  have hlt : level + 1 ≤ 3 := h.depth hbelow
  have hleaf : t.leaf level (n * 512 + i) = none := by
    cases hleaf : t.leaf level (n * 512 + i) with
    | none => rfl
    | some e =>
      rw [h.wellFormed.leaf_end hleaf] at hbelow
      cases hbelow
  have hread : s.read (setKernelSpace a) i = mmuTableEntryBits (setKernelSpace b) := by
    rw [read_eq (h.address hnode), hs level n a hlevel hnode i hi, MmuTree.slotWord, hleaf, hbelow]
  have htype := tableEntry_type (setKernelSpace b)
  have hvalid : mmuEntryValid (mmuTableEntryBits (setKernelSpace b)) = true := by
    rw [mmuEntryValid_eq, decide_eq_true_iff]
    omega
  have hdescriptor : mmuEntryDescriptor (mmuTableEntryBits (setKernelSpace b)) = true := by
    rw [mmuEntryDescriptor_eq, decide_eq_true_iff]
    omega
  have hsubtable := getSubtable_eq (show level ≠ 3 by omega) (h.subtableAddress hbelow) hread
  have hroom : ¬4 ≤ rest.length + 1 := by omega
  have hne : level ≠ 3 := by omega
  simp only [destroySlot, mmuNumberOfLevelEntries, Nat.not_le.mpr hi, hread, hvalid, hdescriptor, hne,
    hsubtable, tableStackSize, hroom, Bool.not_true, Bool.false_eq_true, if_false, if_true]

end Slot

/-! ## Subtrees -/

/-- `c` leads to `c'` when the tables are fit for it, and past the end of one otherwise. -/
def Destroys (pages : PageHeap A) (fit : Prop) (bound : Nat) (c c' : DestroyCursor A) : Prop :=
  fit ∧ Runs pages bound c c' ∨ ¬fit ∧ Fails pages bound c

theorem Destroys.after {fit fit' : Prop} {total : Nat} (h : Runs pages bound c c')
    (h' : Destroys pages fit bound' c' c'') (hfit : fit ↔ fit') (htotal : bound + bound' ≤ total) :
    Destroys pages fit' total c c'' := by
  rw [← hfit]
  rcases h' with ⟨hok, hruns⟩ | ⟨hnot, hfails⟩
  · obtain ⟨k, hle, hk⟩ := h.trans hruns
    exact .inl ⟨hok, k, hle.trans htotal, hk⟩
  · obtain ⟨k, hle, hk⟩ := h.fails hfails
    exact .inr ⟨hnot, k, hle.trans htotal, hk⟩

/-- Enough rounds for any subtree over so many levels. -/
def subtreeRounds : (levels : Nat) → Nat
  | 0 => 0
  | levels + 1 => 512 * (subtreeRounds levels + 2)

section Subtree

variable {mem : Nat → Nat} {root : Nat} {t : MmuTree}

/-- Slot `j` of table `n` leads to no table that is read past its end, itself included. -/
def SlotFit (t : MmuTree) (levels level n j : Nat) : Prop :=
  (t.node (level + 1) (n * 512 + j) ≠ none → t.LastFree levels (level + 1) (n * 512 + j)) ∧
    (j = 511 → t.node (level + 1) (n * 512 + j) = none)

theorem lastFree_succ (t : MmuTree) (levels level n : Nat) :
    t.LastFree (levels + 1) level n ↔ ∀ j, 0 ≤ j → j < 512 → SlotFit t levels level n j := by
  constructor
  · rintro ⟨hlast, hbelow⟩ j - hj
    exact ⟨hbelow j hj, fun heq => heq ▸ hlast⟩
  · intro h
    exact ⟨(h 511 (by decide) (by decide)).2 rfl, fun i hi => (h i (Nat.zero_le i) hi).1⟩

theorem slotParts_of_table (h : HoldsTree mem root t) {levels level m b : Nat}
    (hbelow : t.node (level + 1) m = some b) :
    t.slotParts levels level m = t.parts levels (level + 1) m := by
  have hleaf : t.leaf level m = none := by
    cases hleaf : t.leaf level m with
    | none => rfl
    | some e =>
      rw [h.wellFormed.leaf_end hleaf] at hbelow
      cases hbelow
  rw [MmuTree.slotParts, hleaf, hbelow]

variable (pages) (h : HoldsTree mem root t) (hlow : t.PagesLow)

include h hlow

/-- A slot that holds no table is done in one round. -/
theorem runs_slot {s : Mmu A} (hs : HoldsBelow t s.mem) {level n a i : Nat} (hlevel : 1 ≤ level)
    (hnode : t.node level n = some a) (hi : i < 512)
    (hbelow : t.node (level + 1) (n * 512 + i) = none) (levels : Nat) (rest : List MmuEntryInfo) :
    Runs pages 1 ⟨⟨setKernelSpace a, i, level⟩ :: rest, s⟩
      (leaveTable pages ⟨⟨setKernelSpace a, i + 1, level⟩ :: rest,
        release pages t s (t.slotParts levels level (n * 512 + i))⟩) := by
  cases hleaf : t.leaf level (n * 512 + i) with
  | some e =>
    have hparts : t.slotParts levels level (n * 512 + i) = [.leaf level (n * 512 + i)] := by
      rw [MmuTree.slotParts, hleaf]
    rw [hparts]
    exact .step (destroySlot_of_leaf h hs hlevel hnode hi hlow hleaf)
  | none =>
    have hparts : t.slotParts levels level (n * 512 + i) = [] := by
      rw [MmuTree.slotParts, hleaf, hbelow]
    rw [hparts]
    exact .step (destroySlot_of_empty h hs hlevel hnode hi hleaf hbelow)

/-- The slots from `i` on, when subtrees one level down are destroyed as they should be. -/
theorem destroys_slots {levels level n a : Nat} (hlevel : 1 ≤ level) (hnode : t.node level n = some a)
    {rest : List MmuEntryInfo} (hstack : rest.length + 1 ≤ level)
    (hsub : ∀ (m b : Nat) (s : Mmu A) (rest : List MmuEntryInfo), t.node (level + 1) m = some b →
      HoldsBelow t s.mem → rest.length ≤ level →
      Destroys pages (t.LastFree levels (level + 1) m) (subtreeRounds levels)
        ⟨⟨setKernelSpace b, 0, level + 1⟩ :: rest, s⟩
        ⟨rest, release pages t s (t.parts levels (level + 1) m)⟩)
    (count : Nat) {i : Nat} (hcount : i + (count + 1) = 512) {s : Mmu A} (hs : HoldsBelow t s.mem) :
    Destroys pages (∀ j, i ≤ j → j < 512 → SlotFit t levels level n j)
      ((count + 1) * (subtreeRounds levels + 2)) ⟨⟨setKernelSpace a, i, level⟩ :: rest, s⟩
      ⟨rest, release pages t s (t.partsFrom levels level n i (count + 1))⟩ := by
  induction count generalizing i s with
  | zero =>
    obtain rfl : i = 511 := by omega
    have hend : release pages t s (t.partsFrom levels level n 511 (0 + 1)) =
        (release pages t s (t.slotParts levels level (n * 512 + 511))).mmuDeallocTable pages
          (setKernelSpace a) := by
      have htable : t.partCall (.table level n) = (setKernelSpace a, 1) := by
        rw [MmuTree.partCall, hnode]
        rfl
      have hlast : ∀ s : Mmu A, release pages t s (t.partsFrom levels level n (511 + 1) 0) =
          s.mmuDeallocTable pages (setKernelSpace a) := fun s => by
        rw [MmuTree.partsFrom, List.range'_zero, List.flatMap_nil, List.nil_append, release,
          heapAfter, List.foldl_cons, htable]
        rfl
      rw [MmuTree.partsFrom_succ, release_append, hlast]
    rw [hend]
    cases hbelow : t.node (level + 1) (n * 512 + 511) with
    | none =>
      obtain ⟨k, hle, hk⟩ := runs_slot pages h hlow hs hlevel hnode (by decide) hbelow levels rest
      refine .inl ⟨fun j hlo hhi => ?_, k, by omega, hk⟩
      obtain rfl : j = 511 := by omega
      exact ⟨fun hne => absurd hbelow hne, fun _ => hbelow⟩
    | some b =>
      have hunfit : ¬∀ j, 511 ≤ j → j < 512 → SlotFit t levels level n j := fun hfit => by
        rw [(hfit 511 (Nat.le_refl _) (by decide)).2 rfl] at hbelow
        cases hbelow
      have hpush : Runs pages 1 ⟨⟨setKernelSpace a, 511, level⟩ :: rest, s⟩ _ :=
        .step (destroySlot_of_table h hs hlevel hnode (by decide) hbelow hstack)
      rcases hsub _ b s (⟨setKernelSpace a, 512, level⟩ :: rest) hbelow hs hstack with
        ⟨-, hruns⟩ | ⟨-, hfails⟩
      · obtain ⟨k, hle, hk⟩ := hpush.fails (hruns.fails (.past_end (Nat.le_refl _) _ _))
        exact .inr ⟨hunfit, k, by omega, hk⟩
      · obtain ⟨k, hle, hk⟩ := hpush.fails hfails
        exact .inr ⟨hunfit, k, by omega, hk⟩
  | succ count ih =>
    have hrest : release pages t s (t.partsFrom levels level n i (count + 1 + 1)) =
        release pages t (release pages t s (t.slotParts levels level (n * 512 + i)))
          (t.partsFrom levels level n (i + 1) (count + 1)) := by
      rw [MmuTree.partsFrom_succ, release_append]
    have hrec := ih (i := i + 1) (by omega)
      (show HoldsBelow t (release pages t s (t.slotParts levels level (n * 512 + i))).mem from hs)
    have hi : i < 512 := by omega
    have hfit : SlotFit t levels level n i →
        ((∀ j, i + 1 ≤ j → j < 512 → SlotFit t levels level n j) ↔
          ∀ j, i ≤ j → j < 512 → SlotFit t levels level n j) := fun hslot =>
      ⟨fun hfit j hlo hhi => (Nat.eq_or_lt_of_le hlo).elim (· ▸ hslot) fun hlt => hfit j hlt hhi,
        fun hfit j hlo hhi => hfit j (by omega) hhi⟩
    have hsum : (count + 1 + 1) * (subtreeRounds levels + 2) =
        (count + 1) * (subtreeRounds levels + 2) + (subtreeRounds levels + 2) := Nat.succ_mul _ _
    rw [hrest]
    cases hbelow : t.node (level + 1) (n * 512 + i) with
    | none =>
      have hruns := runs_slot pages h hlow hs hlevel hnode hi hbelow levels rest
      rw [leaveTable_of_lt (show i + 1 < 512 by omega)] at hruns
      exact hrec.after hruns (hfit ⟨fun hne => absurd hbelow hne, fun _ => hbelow⟩) (by omega)
    | some b =>
      have hpush : Runs pages 1 ⟨⟨setKernelSpace a, i, level⟩ :: rest, s⟩ _ :=
        .step (destroySlot_of_table h hs hlevel hnode hi hbelow hstack)
      rcases hsub _ b s (⟨setKernelSpace a, i + 1, level⟩ :: rest) hbelow hs hstack with
        ⟨hsubFit, hruns⟩ | ⟨hsubUnfit, hfails⟩
      · rw [← slotParts_of_table h hbelow] at hruns
        exact hrec.after (hpush.trans hruns) (hfit ⟨fun _ => hsubFit, fun heq => by omega⟩) (by omega)
      · obtain ⟨k, hle, hk⟩ := hpush.fails hfails
        refine .inr ⟨fun hall => ?_, k, by omega, hk⟩
        exact hsubUnfit ((hall i (Nat.le_refl i) hi).1 (by rw [hbelow]; exact Option.some_ne_none b))

/-- A subtree is destroyed part by part, unless one of its tables is read past its end. -/
theorem destroys_subtree {levels level n a : Nat} (hdepth : level + levels = 4) (hlevel : 1 ≤ level)
    (hnode : t.node level n = some a) {s : Mmu A} (hs : HoldsBelow t s.mem) {rest : List MmuEntryInfo}
    (hstack : rest.length + 1 ≤ level) :
    Destroys pages (t.LastFree levels level n) (subtreeRounds levels)
      ⟨⟨setKernelSpace a, 0, level⟩ :: rest, s⟩
      ⟨rest, release pages t s (t.parts levels level n)⟩ := by
  induction levels generalizing level n a s rest with
  | zero =>
    have := h.depth hnode
    omega
  | succ levels ih =>
    have hslots := destroys_slots pages h hlow hlevel hnode hstack
      (fun m b s rest hbelow hs hstack => ih (by omega) (by omega) hbelow hs (by omega)) 511
      (i := 0) (by decide) hs
    rw [MmuTree.parts_succ]
    exact hslots.after (.refl _) (lastFree_succ t levels level n).symm (by rw [subtreeRounds]; omega)

end Subtree

/-! ## The root -/

/-- One round of `memory_mmu_destroy_table`. -/
def destroyRootSlot (pages : PageHeap A) (rounds table : Nat) (s : Mmu A) (idx : Nat) :
    Except Halt (Mmu A) :=
  if s.read table idx ≠ mmuEmptyEntry then s.mmuDestroyEntry pages rounds table idx 0 else .ok s

/-- The slots of the root from `i` on, and the tables but for the root, are in memory. -/
structure RootFrom (t : MmuTree) (root i : Nat) (s : Mmu A) : Prop where
  slots : ∀ j, i ≤ j → j < 512 → s.mem (root / 8 + j) = t.slotWord 0 j
  below : HoldsBelow t s.mem

/-- `s'` is `s` after the parts were given back and with other words in the root. -/
structure Released (pages : PageHeap A) (t : MmuTree) (root : Nat) (parts : List TreePart)
    (s s' : Mmu A) : Prop where
  eq : s' = { release pages t s parts with mem := s'.mem }
  frame : ∀ w, ¬InTable root w → s'.mem w = s.mem w

theorem Released.heap {t : MmuTree} {root : Nat} {parts : List TreePart} {s s' : Mmu A}
    (h : Released pages t root parts s s') : s'.heap = heapAfter pages t s.heap parts := by
  rw [h.eq]
  rfl

theorem Released.write {root i : Nat} (hroot : IsTableAddress root) (hi : i < 512) (t : MmuTree)
    (parts : List TreePart) (s : Mmu A) (entry : Nat) :
    Released pages t root parts s ((release pages t s parts).write (setKernelSpace root) i entry) := by
  refine ⟨rfl, fun w hw => ?_⟩
  rw [write_mem hroot, Function.update_of_ne]
  · rfl
  · rintro rfl
    exact hw (inTable_slot hi)

theorem Released.trans {t : MmuTree} {root : Nat} {parts parts' : List TreePart} {s s₁ s₂ : Mmu A}
    (h₁ : Released pages t root parts s s₁) (h₂ : Released pages t root parts' s₁ s₂) :
    Released pages t root (parts ++ parts') s s₂ := by
  refine ⟨?_, fun w hw => (h₂.frame w hw).trans (h₁.frame w hw)⟩
  rw [h₂.eq, h₁.eq, release_append]
  rfl

theorem RootFrom.release {t : MmuTree} {root i : Nat} {s : Mmu A} (hs : RootFrom t root i s)
    (pages : PageHeap A) (parts : List TreePart) : RootFrom t root i (Mmu.release pages t s parts) :=
  ⟨hs.slots, hs.below⟩

section Root

variable (pages) {mem : Nat → Nat} {root : Nat} {t : MmuTree} (h : HoldsTree mem root t)
  (hlow : t.PagesLow) {s : Mmu A}

include h

theorem RootFrom.write {i : Nat} (hs : RootFrom t root i s) (hi : i < 512) (entry : Nat) :
    RootFrom t root (i + 1) (s.write (setKernelSpace root) i entry) := by
  have hroot : t.node 0 0 = some root := by rw [h.root_node, if_pos rfl]
  constructor
  · intro j hlo hhi
    rw [write_mem (h.address hroot), Function.update_of_ne (by omega), hs.slots j (by omega) hhi]
  · intro level n a hlevel hnode j hj
    rw [write_mem (h.address hroot), Function.update_of_ne, hs.below level n a hlevel hnode j hj]
    intro heq
    have hword : InTable root (a / 8 + j) := heq ▸ inTable_slot hi
    obtain rfl : a = root := (h.address hnode).eq_of_inTable (h.address hroot) (inTable_slot hj) hword
    have := (h.apart hnode hroot).1
    omega

include hlow

/-- One slot of the root: the subtree below it is given back, unless a table is read past its end. -/
theorem rootSlot_spec {i rounds : Nat} (hi : i < 512) (hs : RootFrom t root i s)
    (hrounds : subtreeRounds 3 ≤ rounds) :
    ((t.node 1 i ≠ none → t.LastFree 3 1 i) ∧
      ∃ s', destroyRootSlot pages rounds (setKernelSpace root) s i = .ok s' ∧
        Released pages t root (t.slotParts 3 0 i) s s' ∧ RootFrom t root (i + 1) s') ∨
    (¬(t.node 1 i ≠ none → t.LastFree 3 1 i) ∧
      destroyRootSlot pages rounds (setKernelSpace root) s i = .error .outOfBounds) := by
  have hroot : t.node 0 0 = some root := by rw [h.root_node, if_pos rfl]
  have hleaf : t.leaf 0 i = none := by
    cases hleaf : t.leaf 0 i with
    | none => rfl
    | some e =>
      rcases h.leaf_entry hleaf with ⟨hlevel, -⟩ | ⟨hlevel, -⟩ <;> omega
  have hread : s.read (setKernelSpace root) i = t.slotWord 0 i := by
    rw [read_eq (h.address hroot), hs.slots i (Nat.le_refl i) hi]
  cases hnode : t.node 1 i with
  | none =>
    have hempty : t.slotWord 0 i = mmuEmptyEntry := by
      rw [MmuTree.slotWord, hleaf, hnode]
    have hparts : t.slotParts 3 0 i = [] := by
      rw [MmuTree.slotParts, hleaf, hnode]
    refine .inl ⟨fun hne => absurd rfl hne, s, ?_, ?_, ?_⟩
    · rw [destroyRootSlot, hread, hempty]
      exact if_neg (not_not_intro rfl)
    · rw [hparts]
      exact ⟨rfl, fun _ _ => rfl⟩
    · exact ⟨fun j hlo hhi => hs.slots j (by omega) hhi, hs.below⟩
  | some b =>
    have hword : t.slotWord 0 i = mmuTableEntryBits (setKernelSpace b) := by
      rw [MmuTree.slotWord, hleaf, hnode]
    have hne : mmuTableEntryBits (setKernelSpace b) ≠ mmuEmptyEntry := fun heq => by
      have htype := tableEntry_type (setKernelSpace b)
      rw [heq] at htype
      exact absurd htype (by decide)
    have hentry : destroyRootSlot pages rounds (setKernelSpace root) s i =
        (destroyLoop pages rounds ⟨[⟨setKernelSpace b, 0, 1⟩], s⟩).bind fun s' =>
          .ok (s'.write (setKernelSpace root) i mmuEmptyEntry) := by
      have hsubtable := getSubtable_eq (show 0 ≠ 3 by decide) (h.subtableAddress hnode) (hread.trans hword)
      rw [destroyRootSlot, hread, hword, if_pos hne, mmuDestroyEntry, if_neg (by decide),
        if_neg (fun hblock => absurd hblock.1 (by decide)), hsubtable]
      rfl
    have hparts : t.slotParts 3 0 i = t.parts 3 1 i := slotParts_of_table h hnode
    rcases destroys_subtree pages h hlow (by decide : 1 + 3 = 4) (Nat.le_refl 1) hnode hs.below
      (show [].length + 1 ≤ 1 from Nat.le_refl 1) with ⟨hfit, k, hk, hruns⟩ | ⟨hunfit, k, hk, hfails⟩
    · obtain ⟨r, rfl⟩ := Nat.exists_eq_add_of_le (hk.trans hrounds)
      have hdone : ∀ s' : Mmu A, destroyLoop pages r ⟨[], s'⟩ = .ok s' := fun s' => by cases r <;> rfl
      refine .inl ⟨fun _ => hfit, _, by rw [hentry, hruns, hdone, Except.bind], ?_, ?_⟩
      · rw [hparts]
        exact .write (h.address hroot) hi t _ s _
      · exact RootFrom.write h (hs.release pages _) hi _
    · obtain ⟨r, rfl⟩ := Nat.exists_eq_add_of_le (hk.trans hrounds)
      refine .inr ⟨fun hall => hunfit (hall (Option.some_ne_none b)), ?_⟩
      rw [hentry, hfails]
      rfl

/-- The slots of the root from `i` on. -/
theorem rootSlots_spec {rounds : Nat} (hrounds : subtreeRounds 3 ≤ rounds) (count : Nat) {i : Nat}
    (hcount : i + count = 512) (hs : RootFrom t root i s) :
    ((∀ j, i ≤ j → j < 512 → t.node 1 j ≠ none → t.LastFree 3 1 j) ∧
      ∃ s',
        (List.range' i count).foldlM (destroyRootSlot pages rounds (setKernelSpace root)) s = .ok s' ∧
        Released pages t root ((List.range' i count).flatMap (t.slotParts 3 0)) s s') ∨
    (¬(∀ j, i ≤ j → j < 512 → t.node 1 j ≠ none → t.LastFree 3 1 j) ∧
      (List.range' i count).foldlM (destroyRootSlot pages rounds (setKernelSpace root)) s =
        .error .outOfBounds) := by
  induction count generalizing i s with
  | zero => exact .inl ⟨fun j hlo hhi => by omega, s, rfl, rfl, fun _ _ => rfl⟩
  | succ count ih =>
    rw [List.range'_succ, List.foldlM_cons, List.flatMap_cons]
    rcases rootSlot_spec pages h hlow (show i < 512 by omega) hs hrounds with
      ⟨hfit, s₁, hround, hreleased, hs₁⟩ | ⟨hunfit, hround⟩
    · have hall : (∀ j, i + 1 ≤ j → j < 512 → t.node 1 j ≠ none → t.LastFree 3 1 j) ↔
          ∀ j, i ≤ j → j < 512 → t.node 1 j ≠ none → t.LastFree 3 1 j :=
        ⟨fun hrest j hlo hhi => (Nat.eq_or_lt_of_le hlo).elim (· ▸ hfit) fun hlt => hrest j hlt hhi,
          fun hrest j hlo hhi => hrest j (by omega) hhi⟩
      rw [hround, ← hall]
      rcases ih (by omega) hs₁ with ⟨hrest, s', hfold, hreleased'⟩ | ⟨hrest, hfold⟩
      · exact .inl ⟨hrest, s', hfold, hreleased.trans hreleased'⟩
      · exact .inr ⟨hrest, hfold⟩
    · rw [hround]
      exact .inr ⟨fun hall => hunfit (hall i (Nat.le_refl i) (by omega)), rfl⟩

end Root

/-! ## Whole trees -/

end Mmu

namespace MmuTree

/-- No table but the root has a table in its last slot. -/
def NoLastTable (t : MmuTree) : Prop :=
  ∀ level n, 1 ≤ level → t.node level n ≠ none → t.node (level + 1) (n * 512 + 511) = none

section

variable {mem : Nat → Nat} {root : Nat} {t : MmuTree} (h : HoldsTree mem root t)

include h

/-- The slot of the table above that leads to a table. -/
theorem exists_parent {level n : Nat} (hnode : t.node (level + 1) n ≠ none) :
    t.node level (n / 512) ≠ none := by
  obtain ⟨a, ha⟩ := Option.ne_none_iff_exists'.mp hnode
  obtain ⟨a', ha'⟩ := h.wellFormed.parent ha
  rw [ha']
  exact Option.some_ne_none a'

theorem lt_of_node_one {n : Nat} (hnode : t.node 1 n ≠ none) : n < 512 := by
  have hparent := exists_parent h hnode
  rw [h.root_node] at hparent
  by_contra hge
  exact hparent (if_neg (by omega))

theorem noLastTable_iff :
    (∀ j, 0 ≤ j → j < 512 → t.node 1 j ≠ none → t.LastFree 3 1 j) ↔ t.NoLastTable := by
  constructor
  · intro hfree level n hlevel hnode
    have hlastFree : ∀ k n, k ≤ 2 → t.node (k + 1) n ≠ none → t.LastFree (3 - k) (k + 1) n := by
      intro k
      induction k with
      | zero => exact fun n _ hnode => hfree n (Nat.zero_le n) (lt_of_node_one h hnode) hnode
      | succ k ih =>
        intro n hk hnode
        have habove := ih (n / 512) (by omega) (exists_parent h hnode)
        rw [show 3 - k = 3 - (k + 1) + 1 by omega, LastFree] at habove
        have hslot := habove.2 (n % 512) (Nat.mod_lt n (by decide))
        rw [Nat.div_add_mod'] at hslot
        exact hslot hnode
    obtain ⟨k, rfl⟩ := Nat.exists_eq_add_of_le' hlevel
    rcases Nat.lt_or_ge 2 k with hk | hk
    · obtain ⟨a, ha⟩ := Option.ne_none_iff_exists'.mp hnode
      exact absurd (h.depth ha) (by omega)
    · have hlast := hlastFree k n hk hnode
      rw [show 3 - k = 2 - k + 1 by omega, LastFree] at hlast
      exact hlast.1
  · intro hno j _ _ hnode
    have hlastFree : ∀ levels level n, 1 ≤ level → t.node level n ≠ none →
        t.LastFree levels level n := by
      intro levels
      induction levels with
      | zero => exact fun _ _ _ _ => trivial
      | succ levels ih =>
        exact fun level n hlevel hnode =>
          ⟨hno level n hlevel hnode, fun i _ hbelow => ih (level + 1) _ (by omega) hbelow⟩
    exact hlastFree 3 1 j (Nat.le_refl 1) hnode

end

/-! ### Every part once -/

/-- The level of a part, and the slot of `level` above it, or at it for a leaf, that leads there. -/
def slotAbove (level : Nat) : TreePart → Nat
  | .table l x => x / 512 ^ (l - (level + 1))
  | .leaf l m => m / 512 ^ (l - level)

/-- Parts of a subtree lie below the table of its slot. -/
def IsBelow (level : Nat) : TreePart → Prop
  | .table l _ => level < l
  | .leaf l _ => level ≤ l

theorem slotAbove_succ {level : Nat} {part : TreePart} (h : IsBelow (level + 1) part) :
    slotAbove (level + 1) part / 512 = slotAbove level part ∧ IsBelow level part := by
  have hpow : ∀ k, 512 ^ (k + 1) = 512 ^ k * 512 := fun k => Nat.pow_succ ..
  cases part with
  | table l x =>
    have hlevel : level + 1 < l := h
    refine ⟨?_, show level < l by omega⟩
    rw [slotAbove, slotAbove, Nat.div_div_eq_div_mul, ← hpow,
      show l - (level + 1 + 1) + 1 = l - (level + 1) by omega]
  | leaf l m =>
    have hlevel : level + 1 ≤ l := h
    refine ⟨?_, show level ≤ l by omega⟩
    rw [slotAbove, slotAbove, Nat.div_div_eq_div_mul, ← hpow,
      show l - (level + 1) + 1 = l - level by omega]

theorem mem_slotParts {t : MmuTree} {levels level m : Nat} {part : TreePart} :
    part ∈ t.slotParts levels level m ↔
      (t.leaf level m ≠ none ∧ part = .leaf level m) ∨
        (t.leaf level m = none ∧ t.node (level + 1) m ≠ none ∧
          part ∈ t.parts levels (level + 1) m) := by
  rw [slotParts]
  cases hleaf : t.leaf level m with
  | some e => simp
  | none =>
    cases hnode : t.node (level + 1) m with
    | some a => simp
    | none => simp

theorem mem_parts {t : MmuTree} {levels level n : Nat} {part : TreePart} :
    part ∈ t.parts (levels + 1) level n ↔
      (∃ i < 512, part ∈ t.slotParts levels level (n * 512 + i)) ∨ part = .table level n := by
  rw [parts_succ, partsFrom]
  simp [List.mem_flatMap, List.mem_range'_1]

/-- A table with nothing but its first slot. -/
theorem parts_of_firstSlot {t : MmuTree} (levels : Nat) {level n : Nat}
    (hempty : ∀ i, 0 < i → i < 512 → t.leaf level (n * 512 + i) = none ∧
      t.node (level + 1) (n * 512 + i) = none) :
    t.parts (levels + 1) level n = t.slotParts levels level (n * 512) ++ [.table level n] := by
  have hrest : (List.range' 1 511).flatMap (fun i => t.slotParts levels level (n * 512 + i)) = [] := by
    rw [List.flatMap_eq_nil_iff]
    intro i hi
    rw [List.mem_range'_1] at hi
    obtain ⟨hleaf, hnode⟩ := hempty i (by omega) (by omega)
    rw [slotParts, hleaf, hnode]
  rw [parts_succ, partsFrom_succ, partsFrom, hrest, Nat.add_zero, List.nil_append]

/-- The parts of a subtree are below its table, and their slot is one of the table's. -/
theorem parts_below {t : MmuTree} {levels level n : Nat} {part : TreePart}
    (h : part ∈ t.parts levels level n) :
    part = .table level n ∨ IsBelow level part ∧ slotAbove level part / 512 = n := by
  induction levels generalizing level n with
  | zero => cases h
  | succ levels ih =>
    rcases mem_parts.mp h with ⟨i, hi, hpart⟩ | htable
    · refine .inr ?_
      rcases mem_slotParts.mp hpart with ⟨-, rfl⟩ | ⟨-, -, hpart⟩
      · refine ⟨Nat.le_refl level, ?_⟩
        rw [slotAbove, Nat.sub_self, Nat.pow_zero, Nat.div_one]
        omega
      · rcases ih hpart with rfl | ⟨hbelow, hslot⟩
        · refine ⟨Nat.lt_succ_self level, ?_⟩
          rw [slotAbove, Nat.sub_self, Nat.pow_zero, Nat.div_one]
          omega
        · obtain ⟨habove, hbelow'⟩ := slotAbove_succ hbelow
          exact ⟨hbelow', by rw [← habove, hslot]; omega⟩
    · exact .inl htable

theorem slotAbove_of_mem {t : MmuTree} {levels level m : Nat} {part : TreePart}
    (h : part ∈ t.slotParts levels level m) : IsBelow level part ∧ slotAbove level part = m := by
  rcases mem_slotParts.mp h with ⟨-, rfl⟩ | ⟨-, -, hpart⟩
  · exact ⟨Nat.le_refl level, by rw [slotAbove, Nat.sub_self, Nat.pow_zero, Nat.div_one]⟩
  · rcases parts_below hpart with rfl | ⟨hbelow, hslot⟩
    · exact ⟨Nat.lt_succ_self level, by rw [slotAbove, Nat.sub_self, Nat.pow_zero, Nat.div_one]⟩
    · obtain ⟨habove, hbelow'⟩ := slotAbove_succ hbelow
      exact ⟨hbelow', habove ▸ hslot⟩

theorem nodup_parts (t : MmuTree) (levels level n : Nat) : (t.parts levels level n).Nodup := by
  induction levels generalizing level n with
  | zero => exact List.nodup_nil
  | succ levels ih =>
    rw [parts_succ, partsFrom, List.nodup_append]
    refine ⟨List.nodup_flatMap.mpr ⟨fun i _ => ?_, ?_⟩, List.nodup_singleton _, ?_⟩
    · rw [slotParts]
      split
      · exact List.nodup_singleton _
      · exact ih _ _
      · exact List.nodup_nil
    · refine List.Pairwise.imp ?_ (List.nodup_range' (s := 0) (n := 512))
      intro i j hne part hi hj
      have := (slotAbove_of_mem hi).2.symm.trans (slotAbove_of_mem hj).2
      omega
    · intro part hpart part' hpart' heq
      obtain ⟨i, -, hi⟩ := List.mem_flatMap.mp hpart
      rw [List.mem_singleton] at hpart'
      subst heq
      subst hpart'
      exact Nat.lt_irrefl level (slotAbove_of_mem hi).1

/-- All parts are found from the root. -/
theorem mem_parts_root {mem : Nat → Nat} {root : Nat} {t : MmuTree} (h : HoldsTree mem root t)
    (part : TreePart) : part ∈ t.parts 4 0 0 ↔ t.HasPart part := by
  have hsound : ∀ levels level n, t.node level n ≠ none → part ∈ t.parts levels level n →
      t.HasPart part := by
    intro levels
    induction levels with
    | zero => exact fun _ _ _ hpart => absurd hpart List.not_mem_nil
    | succ levels ih =>
      intro level n hnode hpart
      rcases mem_parts.mp hpart with ⟨i, -, hslot⟩ | rfl
      · rcases mem_slotParts.mp hslot with ⟨hleaf, rfl⟩ | ⟨-, hbelow, hpart⟩
        · exact hleaf
        · exact ih _ _ hbelow hpart
      · exact hnode
  have hroot : t.node 0 0 ≠ none := by
    rw [h.root_node, if_pos rfl]
    exact Option.some_ne_none root
  -- a subtree's parts are among those of the whole tree, by way of the table above it
  have hsubtree : ∀ level n, level ≤ 3 → t.node level n ≠ none →
      t.parts (4 - level) level n ⊆ t.parts 4 0 0 := by
    intro level
    induction level with
    | zero =>
      intro n _ hnode
      rw [h.root_node] at hnode
      by_cases hn : n = 0
      · rw [hn]
        exact fun _ h => h
      · exact absurd (if_neg hn) hnode
    | succ level ih =>
      intro n hlevel hnode part hpart
      refine ih (n / 512) (by omega) (exists_parent h hnode) ?_
      rw [show 4 - level = 4 - (level + 1) + 1 by omega, mem_parts]
      refine .inl ⟨n % 512, Nat.mod_lt n (by decide), ?_⟩
      rw [Nat.div_add_mod', mem_slotParts]
      refine .inr ⟨?_, hnode, hpart⟩
      cases hleaf : t.leaf level n with
      | none => rfl
      | some e => exact absurd (h.wellFormed.leaf_end hleaf) hnode
  refine ⟨hsound 4 0 0 hroot, fun hpart => ?_⟩
  cases part with
  | table level n =>
    obtain ⟨a, ha⟩ := Option.ne_none_iff_exists'.mp hpart
    have hlevel := h.depth ha
    refine hsubtree level n hlevel hpart ?_
    rw [show 4 - level = 3 - level + 1 by omega, mem_parts]
    exact .inr rfl
  | leaf level m =>
    obtain ⟨e, he⟩ := Option.ne_none_iff_exists'.mp hpart
    obtain ⟨a, ha⟩ := h.wellFormed.leaf_node he
    have hlevel := h.depth ha
    refine hsubtree level (m / 512) hlevel (by rw [ha]; exact Option.some_ne_none a) ?_
    rw [show 4 - level = 3 - level + 1 by omega, mem_parts]
    refine .inl ⟨m % 512, Nat.mod_lt m (by decide), ?_⟩
    rw [Nat.div_add_mod', mem_slotParts]
    exact .inl ⟨hpart, rfl⟩

end MmuTree

namespace Mmu

/-- Destroying a tree gives its parts back and changes words of the root only, or ends
with a table read past its end. -/
theorem destroyTable_spec (pages : PageHeap A) {s : Mmu A} {root rounds : Nat} {t : MmuTree}
    (h : HoldsTree s.mem root t) (hlow : t.PagesLow) (hrounds : subtreeRounds 3 ≤ rounds) :
    (t.NoLastTable ∧ ∃ s', s.memoryMmuDestroyTable pages rounds (setKernelSpace root) = .ok s' ∧
      Released pages t root (t.parts 4 0 0) s s') ∨
    (¬t.NoLastTable ∧
      s.memoryMmuDestroyTable pages rounds (setKernelSpace root) = .error .outOfBounds) := by
  have hroot : t.node 0 0 = some root := by rw [h.root_node, if_pos rfl]
  have hparts : t.parts 4 0 0 = (List.range' 0 512).flatMap (t.slotParts 3 0) ++ [.table 0 0] := by
    rw [MmuTree.parts_succ, MmuTree.partsFrom]
    simp only [Nat.zero_mul, Nat.zero_add]
  have htable : t.partCall (.table 0 0) = (setKernelSpace root, 1) := by
    rw [MmuTree.partCall, hroot]
    rfl
  have hunfold : s.memoryMmuDestroyTable pages rounds (setKernelSpace root) =
      ((List.range' 0 512).foldlM (destroyRootSlot pages rounds (setKernelSpace root)) s).bind
        fun s => .ok (s.deallocPages pages (setKernelSpace root) 1) := by
    rw [← List.range_eq_range']
    rfl
  have hfrom : RootFrom t root 0 s := by
    refine ⟨fun j _ hj => ?_, fun level n a _ hnode i hi => h.word hnode i hi⟩
    rw [h.word hroot j hj, Nat.zero_mul, Nat.zero_add]
  rw [hunfold, hparts]
  rcases rootSlots_spec pages h hlow hrounds 512 (Nat.zero_add 512) hfrom with
    ⟨hfit, s', hfold, hreleased⟩ | ⟨hunfit, hfold⟩
  · refine .inl ⟨(MmuTree.noLastTable_iff h).mp hfit, _, by rw [hfold]; rfl, hreleased.trans ⟨?_, ?_⟩⟩
    · rw [release, heapAfter, List.foldl_cons, htable]
      rfl
    · exact fun _ _ => rfl
  · refine .inr ⟨fun hno => hunfit ((MmuTree.noLastTable_iff h).mpr hno), ?_⟩
    rw [hfold]
    rfl

/-- The destruction of the tree ends without reading a table past its end or using
the stack past its last slot, and in some order every part of the tree is given back
once, and nothing else is. -/
def DestroysExactly (pages : PageHeap A) (s : Mmu A) (root : Nat) (t : MmuTree) : Prop :=
  ∃ order : List TreePart, order.Nodup ∧ (∀ part, part ∈ order ↔ t.HasPart part) ∧
    ∃ enough, ∀ rounds ≥ enough, ∃ s',
      s.memoryMmuDestroyTable pages rounds (setKernelSpace root) = .ok s' ∧
      s'.heap = heapAfter pages t s.heap order

theorem DestroysExactly.noLastTable {pages : PageHeap A} {s : Mmu A} {root : Nat} {t : MmuTree}
    (hdestroys : DestroysExactly pages s root t) (h : HoldsTree s.mem root t) (hlow : t.PagesLow) :
    t.NoLastTable := by
  obtain ⟨order, -, -, enough, hends⟩ := hdestroys
  obtain ⟨s', hok, -⟩ := hends (max enough (subtreeRounds 3)) (Nat.le_max_left ..)
  rcases destroyTable_spec pages h hlow (Nat.le_max_right enough (subtreeRounds 3)) with
    ⟨hno, -⟩ | ⟨-, herror⟩
  · exact hno
  · rw [herror] at hok
    cases hok

/-- A tree whose pages lie below 64 GB is destroyed as it should be just when no table
below the root has a table in its last slot. -/
theorem destroysExactly_iff (pages : PageHeap A) {s : Mmu A} {root : Nat} {t : MmuTree}
    (h : HoldsTree s.mem root t) (hlow : t.PagesLow) :
    DestroysExactly pages s root t ↔ t.NoLastTable := by
  constructor
  · exact fun hdestroys => hdestroys.noLastTable h hlow
  · intro hno
    refine ⟨t.parts 4 0 0, t.nodup_parts 4 0 0, MmuTree.mem_parts_root h, subtreeRounds 3,
      fun rounds hrounds => ?_⟩
    rcases destroyTable_spec pages h hlow hrounds with ⟨-, s', hok, hreleased⟩ | ⟨hlast, -⟩
    · exact ⟨s', hok, hreleased.heap⟩
    · exact absurd hno hlast

theorem pagesLow_mixed : MmuTree.mixed.PagesLow := by
  intro m e hleaf
  rcases MmuTree.mixed_leaf_eq_some hleaf with ⟨hlevel, -⟩ | ⟨-, ⟨-, rfl⟩ | ⟨-, rfl⟩⟩
  · exact absurd hlevel (by decide)
  · decide
  · decide

/-- Four tables, two pages and two blocks, one of which is in the last slot of its table, are
all given back. -/
theorem destroysExactly_iff_mixed :
    MmuTree.mixed.NoLastTable ∧
      DestroysExactly pageCounter (blank mixedMem 1) 0x1000 MmuTree.mixed := by
  have hno : MmuTree.mixed.NoLastTable := by
    intro level n _ _
    cases hlast : MmuTree.mixed.node (level + 1) (n * 512 + 511) with
    | none => rfl
    | some a => exact absurd (MmuTree.mixed_node_eq_some hlast).2.1 (by omega)
  exact ⟨hno, (destroysExactly_iff pageCounter holdsTree_mixed pagesLow_mixed).mpr hno⟩

/-- One page at the last 2 MB of the first gigabyte: its table hangs from the last slot
of a level 2 table. -/
def lastPage : Insertion Nat :=
  { address := 0x3FE00000, size := 0x1000, memoryType := 0, getPhysSpace := getPhysSpaceOneToOne }

def lastPageMapped : Mmu Nat := (insertAll pageCounter (fun _ => 0) 1 [lastPage]).2

def lastPagePages : Stretch Nat := ⟨pageUnits 0 getPhysSpaceOneToOne, 0x3FE00, 1⟩

theorem lastPagePages_valid : lastPagePages.Valid :=
  ⟨UnitKind.pageUnits_regular _ _, by decide, by decide⟩

theorem lastPageMapped_eq :
    lastPageMapped = lastPagePages.map pageCounter 0x1000 counterStart.2 := by
  have hvalid : lastPage.Valid := by constructor <;> decide
  have hroot : counterStart.1 = setKernelSpace 0x1000 := rfl
  have hstart : lastPagePages.first * lastPagePages.kind.unitSize = 0x3FE00000 := by decide
  have happly := Insertion.apply_of_short hvalid pageCounter counterStart.1 counterStart.2
    (by decide) (by decide : lastPage.size = 1 * 4096)
  rw [lastPageMapped, insertAll_counter, happly, hroot, Stretch.map, hstart]
  rfl

/-- The tables of that page are read past the end when they are destroyed. -/
theorem not_destroysExactly_lastPage :
    ∃ t, HoldsTree lastPageMapped.mem 0x1000 t ∧
      ¬DestroysExactly pageCounter lastPageMapped 0x1000 t := by
  have hsteps : Steps pageCounter getPhysSpaceOneToOne counterStart.2 lastPageMapped := by
    rw [lastPageMapped_eq]
    exact mapUnits_steps lastPagePages_valid.regular _ _ _ _ _
  have hlength : lastPageMapped.tables.length ≤ counterStart.2.tables.length + 1 * 3 := by
    rw [lastPageMapped_eq]
    exact mapUnits_tables_length lastPagePages_valid.regular _ _ _ _ _
  have hlength₀ : counterStart.2.tables.length = 1 := rfl
  have hcounted := (Counted.create (fun _ => 0)).steps hsteps
  have hsound : SoundGrants lastPageMapped := hcounted.soundGrants (by omega)
  have hstart : Mapped [] lastPageMapped 0x1000 counterStart.2 (MmuTree.bare 0x1000) :=
    Mapped.create hsteps.recordedIn hsound (hcounted.linksLow (by omega))
  obtain ⟨t, h⟩ := hstart.step lastPagePages_valid (fun _ hq => absurd hq List.not_mem_nil)
    (by rw [← lastPageMapped_eq]; exact .refl _)
  rw [← lastPageMapped_eq] at h
  have htree := h.holds.tree
  have hpage := h.mapped lastPagePages (List.mem_singleton_self _) 0x3FE00 (by decide) (by decide)
  obtain ⟨e, he⟩ := Option.isSome_iff_exists.mp hpage
  obtain ⟨c, hc⟩ := htree.wellFormed.leaf_node he
  have hlast : t.node 3 511 ≠ none := by
    rw [show t.node 3 511 = some c from hc]
    exact Option.some_ne_none c
  have hlow : t.PagesLow := by
    intro m e hleaf
    obtain ⟨p, hp, -, hlo, hhi, addr, hentry, -, heap, haddr⟩ := h.leaf hleaf
    obtain rfl := List.mem_singleton.mp hp
    obtain rfl : m = 0x3FE00 := Nat.le_antisymm (Nat.le_of_lt_succ hhi) hlo
    rw [hentry, ← haddr]
    exact (by decide : outputAddress 3 (mmuPageEntryBits 0x3FE00000 0) < 2 ^ 36)
  refine ⟨t, htree, fun hdestroys => ?_⟩
  exact hlast (hdestroys.noLastTable htree hlow 2 0 (by decide) (MmuTree.exists_parent htree hlast))

end Mmu
end PiVOS
