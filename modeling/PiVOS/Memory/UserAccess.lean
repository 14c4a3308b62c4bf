-- SUMMARY: What a program may reach, through its own tables and through the kernel's half.
import PiVOS.Memory.KernelMap
import PiVOS.Memory.Mmu.Split
import PiVOS.Memory.Space

/-!
# What a program may reach

The upper 16 bits of an address select the tables: those in `TTBR0` when all of them are
zero, those in `TTBR1`, which are the kernel's, when all of them are one. The descriptor
that ends the walk says whether a program may use the memory. The boot code's blocks are
for the kernel alone, but every descriptor of `mmu.c` admits programs, so the kernel's
half is open to them wherever `memory_init` has added to the boot's map: up to 4 GB, since
`TCR_EL1` admits no larger addresses.
-/

namespace PiVOS

open Mmu

/-- `AP` 1 admits programs to everything, `AP` 3 to loads; a clear access flag faults. -/
def permits (entry : Nat) : Access → Bool
  | .load => (accessRights entry).af = 1 && ((accessRights entry).ap = 1 || (accessRights entry).ap = 3)
  | .store => (accessRights entry).af = 1 && (accessRights entry).ap = 1

/-- The kernel may load everything, and store where `AP` is 0 or 1. -/
def permitsKernel (entry : Nat) : Access → Bool
  | .load => (accessRights entry).af = 1
  | .store => (accessRights entry).af = 1 && ((accessRights entry).ap = 0 || (accessRights entry).ap = 1)

/-- The level-0 table for `va`, and the address within its half. -/
def halfOf (ttbr0 ttbr1 va : Nat) : Option (Nat × Nat) :=
  if va < 2 ^ 48 then some (ttbr0 % 2 ^ 48, va)
  else if kernelSpaceMask ≤ va ∧ va < 2 ^ 64 then some (ttbr1 % 2 ^ 48, va - kernelSpaceMask)
  else none

/-- The tables of the walk, down to `level`, are where `TCR_EL1.IPS` admits them. -/
def tablesInReach (mem : Nat → Nat) (root va level : Nat) : Bool :=
  (List.range (level + 1)).all fun levels => (walkTable mem levels 0 root va).all fun a => a < physicalEnd

/-- Where an address within its half lies in memory, with the descriptor that says so. A walk to
an address that is too large faults. -/
def walkTranslation (mem : Nat → Nat) (root va : Nat) : Option (Nat × Nat) :=
  (walkEntry mem root va).bind fun (level, entry) =>
    let pa := (translate level entry va).pa
    if tablesInReach mem root va level ∧ pa < physicalEnd then some (pa, entry) else none

/-- The same for any address. -/
def translationAt (mem : Nat → Nat) (ttbr0 ttbr1 va : Nat) : Option (Nat × Nat) :=
  (halfOf ttbr0 ttbr1 va).bind fun (root, va) => walkTranslation mem root va

/-- Where an access of a program goes, unless it faults. -/
def el0Address (mem : Nat → Nat) (ttbr0 ttbr1 : Nat) (access : Access) (va : Nat) : Option Nat :=
  (translationAt mem ttbr0 ttbr1 va).bind fun (pa, entry) =>
    if permits entry access then some pa else none

/-- Where one of the kernel goes. -/
def el1Address (mem : Nat → Nat) (ttbr0 ttbr1 : Nat) (access : Access) (va : Nat) : Option Nat :=
  (translationAt mem ttbr0 ttbr1 va).bind fun (pa, entry) =>
    if permitsKernel entry access then some pa else none

theorem translationAt_lower {va : Nat} (hva : va < 2 ^ 48) (mem : Nat → Nat) (ttbr0 ttbr1 : Nat) :
    translationAt mem ttbr0 ttbr1 va = walkTranslation mem (ttbr0 % 2 ^ 48) va := by
  rw [translationAt, halfOf, if_pos hva]
  rfl

theorem translationAt_upper {va : Nat} (hva : va < 2 ^ 48) (mem : Nat → Nat) (ttbr0 ttbr1 : Nat) :
    translationAt mem ttbr0 ttbr1 (kernelSpaceMask + va) =
      walkTranslation mem (ttbr1 % 2 ^ 48) va := by
  have hmask : kernelSpaceMask = 2 ^ 64 - 2 ^ 48 := by decide
  rw [translationAt, halfOf, if_neg (by omega), if_pos (by omega), Nat.add_sub_cancel_left]
  rfl

/-- An address of neither half is not mapped. -/
theorem translationAt_between {va : Nat} (hlow : 2 ^ 48 ≤ va)
    (hhigh : va < kernelSpaceMask ∨ 2 ^ 64 ≤ va) (mem : Nat → Nat) (ttbr0 ttbr1 : Nat) :
    translationAt mem ttbr0 ttbr1 va = none := by
  rw [translationAt, halfOf, if_neg (by omega), if_neg (by omega)]
  rfl

theorem el0Address_of_some {mem : Nat → Nat} {ttbr0 ttbr1 va pa e : Nat}
    (h : translationAt mem ttbr0 ttbr1 va = some (pa, e)) (access : Access) :
    el0Address mem ttbr0 ttbr1 access va = if permits e access then some pa else none := by
  rw [el0Address, h]
  rfl

theorem el0Address_of_none {mem : Nat → Nat} {ttbr0 ttbr1 va : Nat}
    (h : translationAt mem ttbr0 ttbr1 va = none) (access : Access) :
    el0Address mem ttbr0 ttbr1 access va = none := by
  rw [el0Address, h]
  rfl

/-- The walk ends at the leaf on the address's path, if there is one. -/
theorem HoldsTree.walkEntry_eq_some {mem : Nat → Nat} {root : Nat} {t : MmuTree}
    (h : HoldsTree mem root t) {va level e : Nat} (hva : va < 2 ^ 48) :
    walkEntry mem root va = some (level, e) ↔ t.leaf level (slotNumber level va) = some e := by
  rw [h.walkEntry_eq hva, h.wellFormed.find_eq_some (slotNumber_path va) (by omega)]
  refine ⟨fun hfound => hfound.2.2, fun hleaf => ⟨Nat.zero_le _, ?_, hleaf⟩⟩
  rcases h.leaf_entry hleaf with ⟨hlevel, -⟩ | ⟨rfl, -⟩ <;> omega

/-- A tree whose tables are in reach leaves the leaf to be checked. -/
theorem HoldsTree.walkTranslation_of_leaf {mem : Nat → Nat} {root : Nat} {t : MmuTree}
    (h : HoldsTree mem root t) (htables : ∀ a, t.HasTable a → a < physicalEnd) {va level e : Nat}
    (hva : va < 2 ^ 48) (hleaf : t.leaf level (slotNumber level va) = some e) :
    walkTranslation mem root va = if (translate level e va).pa < physicalEnd then
      some ((translate level e va).pa, e) else none := by
  have hlevel : level ≤ 3 := by
    rcases h.leaf_entry hleaf with ⟨hlevel, -⟩ | ⟨rfl, -⟩ <;> omega
  have hroot : t.node 0 (slotNumber 0 va / 512) = some root := by
    rw [h.root_node, if_pos]
    simp only [slotNumber, regionSize]
    omega
  have hreach : tablesInReach mem root va level = true := by
    refine List.all_eq_true.mpr fun levels hlevels => ?_
    rw [List.mem_range] at hlevels
    cases htable : walkTable mem levels 0 root va with
    | none => rfl
    | some a =>
      exact decide_eq_true (htables a ⟨_, _, h.node_of_walkTable (by omega) hroot htable⟩)
  rw [walkTranslation, (h.walkEntry_eq_some hva).mpr hleaf, Option.bind_some]
  simp only [hreach, true_and]

theorem el1Address_of_some {mem : Nat → Nat} {ttbr0 ttbr1 va pa e : Nat}
    (h : translationAt mem ttbr0 ttbr1 va = some (pa, e)) (access : Access) :
    el1Address mem ttbr0 ttbr1 access va = if permitsKernel e access then some pa else none := by
  rw [el1Address, h]
  rfl

theorem el1Address_of_none {mem : Nat → Nat} {ttbr0 ttbr1 va : Nat}
    (h : translationAt mem ttbr0 ttbr1 va = none) (access : Access) :
    el1Address mem ttbr0 ttbr1 access va = none := by
  rw [el1Address, h]
  rfl

/-! ## Rights -/

theorem accessRights_entry {A : Type} {kind : UnitKind A} (h : kind.Regular) (addr : Nat) :
    (accessRights (kind.entry addr)).af = 1 ∧ (accessRights (kind.entry addr)).ap = 1 := by
  simp only [accessRights, bitField]
  rcases h.level with hlevel | hlevel
  · rw [UnitKind.entry_block hlevel]
    omega
  · rw [UnitKind.entry_page hlevel]
    omega

theorem accessRights_bootBlock (m : Nat) :
    (accessRights (bootBlock m)).af = 1 ∧ (accessRights (bootBlock m)).ap = 0 := by
  simp only [accessRights, bitField, bootBlock_eq]
  omega

theorem permits_of_rights {entry : Nat} (haf : (accessRights entry).af = 1)
    (hap : (accessRights entry).ap = 1) (access : Access) : permits entry access = true := by
  cases access <;> simp [permits, haf, hap]

theorem not_permits_of_rights {entry : Nat} (hap : (accessRights entry).ap = 0) (access : Access) :
    permits entry access = false := by
  cases access <;> simp [permits, hap]

theorem permitsKernel_of_rights {entry : Nat} (haf : (accessRights entry).af = 1)
    (hap : (accessRights entry).ap ≤ 1) (access : Access) : permitsKernel entry access = true := by
  have hzero : (accessRights entry).ap = 0 ∨ (accessRights entry).ap = 1 := by omega
  cases access <;> simp [permitsKernel, haf, hzero]

/-! ## The kernel's half -/

/-- Through the kernel's half a program reaches the memory from 1 GB to 4 GB, at its physical
addresses, and no other. The kernel reaches the first gigabyte as well. -/
structure KernelHalf (mem : Nat → Nat) (ttbr1 : Nat) : Prop where
  user : ∀ (ttbr0 : Nat) (access : Access) (va : Nat), va < 2 ^ 48 →
    el0Address mem ttbr0 ttbr1 access (kernelSpaceMask + va) =
      if 2 ^ 30 ≤ va ∧ va < 2 ^ 32 then some va else none
  kernel : ∀ (ttbr0 : Nat) (access : Access) (va : Nat), va < 2 ^ 48 →
    el1Address mem ttbr0 ttbr1 access (kernelSpaceMask + va) = if va < 2 ^ 32 then some va else none

/-- What extends the boot's map by units is the boot's below 1 GB and units behind. -/
theorem IdentityTree.leaf_rights {root size : Nat} {t : MmuTree} (h : IdentityTree t size size)
    (hadded : UnitsAdded (bootTree root) t) {va : Nat} (hin : va < size) :
    ∃ level e, t.leaf level (slotNumber level va) = some e ∧ (translate level e va).pa = va ∧
      (accessRights e).af = 1 ∧ (accessRights e).ap = if 2 ^ 30 ≤ va then 1 else 0 := by
  rcases Nat.lt_or_ge va (2 ^ 30) with hboot | hbehind
  · have hslot : slotNumber 2 va < 512 := by
      rw [slotNumber, regionSize]
      omega
    have hkept := hadded.kept (bootTree_leaf_eq_some.mpr ⟨⟨rfl, hslot⟩, rfl⟩)
    have hrights := accessRights_bootBlock (slotNumber 2 va)
    exact ⟨_, _, hkept, by rw [(h.leaf hkept).2.2 va rfl], hrights.1, by rw [if_neg (by omega), hrights.2]⟩
  · obtain ⟨level, hsome⟩ := h.mapped va hin
    obtain ⟨e, he⟩ := Option.isSome_iff_exists.mp hsome
    refine ⟨level, e, he, by rw [(h.leaf he).2.2 va rfl], ?_⟩
    rw [if_pos hbehind]
    rcases hadded.added he with hold | ⟨kind, addr, hkind, rfl⟩
    · obtain ⟨⟨rfl, hslot⟩, -⟩ := bootTree_leaf_eq_some.mp hold
      rw [slotNumber, regionSize] at hslot
      omega
    · exact accessRights_entry hkind addr

/-- An identity map that goes as far as addresses may gives every address up to there. -/
theorem IdentityTree.walkTranslation_eq {mem : Nat → Nat} {root size va : Nat} {t : MmuTree}
    (htree : HoldsTree mem root t) (htables : ∀ a, t.HasTable a → a < physicalEnd)
    (h : IdentityTree t size size) (hadded : UnitsAdded (bootTree root) t) (hsize : 2 ^ 32 ≤ size)
    (hva : va < 2 ^ 48) :
    (va < 2 ^ 32 → ∃ e, walkTranslation mem root va = some (va, e) ∧ (accessRights e).af = 1 ∧
      (accessRights e).ap = if 2 ^ 30 ≤ va then 1 else 0) ∧
    (2 ^ 32 ≤ va → walkTranslation mem root va = none) := by
  rw [← physicalEnd_eq] at hsize ⊢
  constructor
  · intro hin
    obtain ⟨level, e, he, hpa, hrights⟩ := h.leaf_rights hadded (Nat.lt_of_lt_of_le hin hsize)
    refine ⟨e, ?_, hrights⟩
    rw [htree.walkTranslation_of_leaf htables hva he, hpa, if_pos hin]
  · intro hout
    cases hfound : walkEntry mem root va with
    | none => rw [walkTranslation, hfound, Option.bind_none]
    | some found =>
      have hleaf := (htree.walkEntry_eq_some hva).mp hfound
      rw [htree.walkTranslation_of_leaf htables hva hleaf, (h.leaf hleaf).2.2 va rfl,
        if_neg (Nat.not_lt.mpr hout)]

theorem IdentityTree.kernelHalf {mem : Nat → Nat} {root size : Nat} {t : MmuTree}
    (htree : HoldsTree mem root t) (htables : ∀ a, t.HasTable a → a < physicalEnd)
    (h : IdentityTree t size size) (hadded : UnitsAdded (bootTree root) t) (hsize : 2 ^ 32 ≤ size) :
    KernelHalf mem root := by
  have hroot : root < 2 ^ 48 := (htree.address (htree.root_node 0)).2
  have hupper : ∀ ttbr0 va, va < 2 ^ 48 → translationAt mem ttbr0 root (kernelSpaceMask + va) =
      walkTranslation mem root va := fun ttbr0 va hva => by
    rw [translationAt_upper hva, Nat.mod_eq_of_lt hroot]
  constructor
  · intro ttbr0 access va hva
    obtain ⟨hbelow, hfrom⟩ := h.walkTranslation_eq htree htables hadded hsize hva
    rcases Nat.lt_or_ge va (2 ^ 32) with hin | hout
    · obtain ⟨e, hwalk, haf, hap⟩ := hbelow hin
      have hat := (hupper ttbr0 va hva).trans hwalk
      by_cases hbehind : 2 ^ 30 ≤ va
      · rw [if_pos hbehind] at hap
        rw [el0Address_of_some hat, permits_of_rights haf hap, if_pos rfl, if_pos ⟨hbehind, hin⟩]
      · rw [if_neg hbehind] at hap
        rw [el0Address_of_some hat, not_permits_of_rights hap, if_neg Bool.false_ne_true,
          if_neg fun hboth => hbehind hboth.1]
    · rw [el0Address_of_none ((hupper ttbr0 va hva).trans (hfrom hout)), if_neg (by omega)]
  · intro ttbr0 access va hva
    obtain ⟨hbelow, hfrom⟩ := h.walkTranslation_eq htree htables hadded hsize hva
    rcases Nat.lt_or_ge va (2 ^ 32) with hin | hout
    · obtain ⟨e, hwalk, haf, hap⟩ := hbelow hin
      have hle : (accessRights e).ap ≤ 1 := by
        rw [hap]
        split <;> decide
      rw [el1Address_of_some ((hupper ttbr0 va hva).trans hwalk), permitsKernel_of_rights haf hle,
        if_pos rfl, if_pos hin]
    · rw [el1Address_of_none ((hupper ttbr0 va hva).trans (hfrom hout)), if_neg (by omega)]

/-- The tree that `memory_init` leaves, with its tables: those of the boot code and those taken. -/
theorem memoryInit_tree (memory : Nat → BitVec 64) {mem : Nat → Nat} {root image size : Nat}
    (hroot : root % 4096 = 0) (hinside : root + 3 * 4096 ≤ image)
    (hclear : ∀ w, root / 8 ≤ w → w < root / 8 + 3 * 512 → mem w = 0) (hpage : image % 4096 = 0)
    (himage : image < 2 ^ 29) (hpages : size % 4096 = 0) (hlow : 2 ^ 32 ≤ size) (hhigh : size ≤ 2 ^ 39)
    {m : Memory} (hm : m = memoryInit memory (setupTables mem (setKernelSpace root))
      (setKernelSpace root) (setKernelSpace image) size) :
    ∃ t, HoldsTree m.mem root t ∧ IdentityTree t size size ∧ UnitsAdded (bootTree root) t ∧
      ∀ a, t.HasTable a → (bootTree root).HasTable a ∨ a ∈ m.tables := by
  have hholds := memoryInit_holds memory hroot hinside hclear hpage himage hlow hhigh
  obtain ⟨taken, htaken, hnodup, hnew⟩ := hholds.fresh
  rw [← hm, blank_tables, List.append_nil] at htaken
  -- whatever takes all the other pages later finds that none of them is a table
  obtain ⟨others, hothers, hmem⟩ : ∃ others : List Nat, others.Nodup ∧ ∀ a, a ∈ others ↔
      a < 2 ^ 36 ∧ IsSubtableAddress a ∧ a ∉ taken ∧ ¬(bootTree root).HasTable a := by
    classical
    refine ⟨(List.range (2 ^ 36)).filter fun a =>
      IsSubtableAddress a ∧ a ∉ taken ∧ ¬(bootTree root).HasTable a, List.nodup_range.filter _, fun a => ?_⟩
    rw [List.mem_filter, List.mem_range, decide_eq_true_iff]
  obtain ⟨fin, hfin⟩ : ∃ fin : Memory, fin = { m with tables := others ++ m.tables } := ⟨_, rfl⟩
  have htables : fin.tables = others ++ m.tables := by rw [hfin]
  have hholds' : Holds fin root (blank (setupTables mem (setKernelSpace root))
      (memoryInitAllocator memory (setKernelSpace image) size)) (bootTree root) := by
    refine ⟨hholds.tree, others ++ taken, by rw [htables, htaken, blank_tables, List.append_nil], ?_, ?_⟩
    · exact List.nodup_append.mpr ⟨hothers, hnodup, fun a ha b hb hab =>
        ((hmem a).mp ha).2.2.1 (hab ▸ hb)⟩
    · intro a ha
      rcases List.mem_append.mp ha with ha | ha
      · exact ⟨((hmem a).mp ha).2.1, ((hmem a).mp ha).2.2.2⟩
      · exact hnew a ha
  obtain ⟨t, hgrown, hidentity, hadded⟩ := memoryInit_unitsAdded memory hlow hhigh hpages hholds'
    (hm ▸ ⟨⟨others, htables.symm⟩, by rw [hfin]⟩)
  rw [← hm] at hgrown
  refine ⟨t, hgrown.tree, hidentity, hadded, fun a ha => ?_⟩
  obtain ⟨later, hlater, -, hfree⟩ := hgrown.fresh
  obtain rfl : others = later := List.append_cancel_right (htables.symm.trans hlater)
  by_contra hout
  rw [not_or] at hout
  obtain ⟨level, n, hnode⟩ := ha
  cases level with
  | zero => exact hout.1 ⟨0, n, (hholds.tree.root_node n).trans ((hgrown.tree.root_node n).symm.trans hnode)⟩
  | succ level =>
    have haddress := hgrown.tree.subtableAddress hnode
    exact (hfree a ((hmem a).mpr ⟨haddress.2, haddress, htaken ▸ hout.2, hout.1⟩)).2 ⟨_, n, hnode⟩

/-- All of these tables are below the peripherals. -/
theorem memoryInit_tables_lt (memory : Nat → BitVec 64) {mem : Nat → Nat} {root image size : Nat}
    (hinside : root + 3 * 4096 ≤ image) (hpage : image % 4096 = 0) (himage : image < 2 ^ 29)
    (hlow : 2 ^ 32 ≤ size) (hhigh : size ≤ 2 ^ 39) {m : Memory}
    (hm : m = memoryInit memory (setupTables mem (setKernelSpace root)) (setKernelSpace root)
      (setKernelSpace image) size) {a : Nat} (ha : (bootTree root).HasTable a ∨ a ∈ m.tables) :
    a < physicalEnd := by
  rw [physicalEnd_eq]
  rcases ha with ⟨level, n, hnode⟩ | ha
  · obtain ⟨⟨hlevel, -⟩, rfl⟩ := bootTree_node_eq_some.mp hnode
    omega
  · obtain ⟨n, hn, -, htables⟩ := memoryInit_heap memory (setupTables mem (setKernelSpace root)) root hpage
      ⟨by omega, himage⟩ hlow hhigh
    have hfirst := firstFree_add_le himage hhigh hn
    rw [hm, htables, List.mem_reverse, List.mem_map] at ha
    obtain ⟨k, hk, rfl⟩ := ha
    rw [List.mem_range'_1] at hk
    omega

/-- The kernel's half after `memory_init`, for every size of the RAM from 4 GB to 512 GB and
every end of the image. -/
theorem memoryInit_kernelHalf (memory : Nat → BitVec 64) {mem : Nat → Nat} {root image size : Nat}
    (hroot : root % 4096 = 0) (hinside : root + 3 * 4096 ≤ image)
    (hclear : ∀ w, root / 8 ≤ w → w < root / 8 + 3 * 512 → mem w = 0) (hpage : image % 4096 = 0)
    (himage : image < 512 * mbInB) (hpages : size % 4096 = 0) (hlow : 4 * gbInB ≤ size)
    (hhigh : size ≤ 512 * gbInB) :
    KernelHalf (memoryInit memory (setupTables mem (setKernelSpace root)) (setKernelSpace root)
      (setKernelSpace image) size).mem root := by
  have hmb : mbInB = 2 ^ 20 := by decide
  have hgb : gbInB = 2 ^ 30 := by decide
  rw [hmb] at himage
  rw [hgb] at hlow hhigh
  obtain ⟨t, htree, hidentity, hadded, htables⟩ :=
    memoryInit_tree memory hroot hinside hclear hpage himage hpages hlow hhigh rfl
  exact hidentity.kernelHalf htree (fun a ha => memoryInit_tables_lt memory hinside hpage himage hlow hhigh
    rfl (htables a ha)) hadded hlow

/-- A RAM of 512 GB and an image that ends at 1 MB, with the boot's tables at its end. -/
theorem memoryInit_kernelHalf_512Gb :
    KernelHalf (memoryInit (fun _ => 0#64) (setupTables (fun _ => 0) (setKernelSpace 0xFD000))
      (setKernelSpace 0xFD000) (setKernelSpace 0x100000) (512 * gbInB)).mem 0xFD000 :=
  memoryInit_kernelHalf (fun _ => 0#64) (by decide) (by decide) (fun _ _ _ => rfl) (by decide)
    (by decide) (by decide) (by decide) (by decide)

end PiVOS
