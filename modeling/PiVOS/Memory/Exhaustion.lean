-- SUMMARY: What creating contexts and mapping granted memory do when the allocator runs out of pages.
import PiVOS.Memory.Mmu.Confined

/-!
# Running out of pages

Nobody checks whether a page was granted. Where one is missing, the page at
address 0 is cleared and linked as a table, or mapped. As long as none is missing,
a mapping stores into tables and grants only and maps no other memory, provided
it stays within the address space, splits no block at or above 2 GB and finds the
tables of pages it should fill.
-/

namespace PiVOS

open MmuTree

namespace Mmu

variable {A : Type} {pages : PageHeap A}

/-! ## One call of `mmu_map_units` -/

namespace MapCall

/-- The number of the call's first unit. -/
def first (call : MapCall A) : Nat := call.address / call.kind.unitSize

/-- The number behind its last unit. -/
def stop (call : MapCall A) : Nat := call.first + u32 call.count

variable {call : MapCall A}

theorem run_precedes (hkind : call.kind.Regular) (table : Nat) (s : Mmu A) :
    Precedes s (call.run pages table s) := by
  have hsteps : Steps pages call.kind.getPhysSpace s (call.run pages table s) :=
    mapUnits_steps hkind _ _ _ _ _
  exact ⟨.mapUnits hkind _ _ _ _ _, hsteps.recordedIn⟩

theorem run_confined (hkind : call.kind.Regular) {fin s : Mmu A} {root : Nat} {t : MmuTree}
    (h : HoldsTree s.mem root t)
    (hspace : call.address + u32 call.count * call.kind.unitSize ≤ 2 ^ 48)
    (hlow : ∀ j, call.first ≤ j → j < call.stop →
      LowOnWay t (j * call.kind.unitSize) call.kind.destinationLevel)
    (hstraight : call.kind.destinationLevel = 2 → Straight t call.first call.stop)
    (hans : Answers t s fin) (hfin : Precedes (call.run pages (setKernelSpace root) s) fin) :
    (∃ t', Confined root s t (call.run pages (setKernelSpace root) s) t' ∧
      Reshaped call.kind.destinationLevel call.first call.stop t t' ∧
      (call.kind.destinationLevel = 3 → ∀ j, call.first ≤ j → j < call.stop → t'.node 3 (j / 512) ≠ none)) ∨
    Spoiled root s fin := by
  have hfirst : slotNumber call.kind.destinationLevel (call.address + 0) = call.first := by
    rw [slotNumber, ← hkind.unitSize]
    rfl
  exact mapLoop_confined hkind (c := ⟨u32 call.count, 0, s⟩) h (Nat.le_refl _) hfirst hspace hlow hstraight
    hans hfin

end MapCall

/-! ## Pages, blocks and pages -/

/-- Where the pages end is where the blocks start. -/
theorem pages_end {address count stop first : Nat} (haligned : address % 4096 = 0)
    (hstop : stop = address / 4096 + count) (hfirst : first = (address + count * 4096) / 2097152) :
    first = stop / 512 ∧ ((address + count * 4096) % 2097152 ≠ 0 → 0 < count →
      (stop - 1) / 512 = first ∧ address / 4096 ≤ stop - 1 ∧ stop - 1 < stop) := by
  omega

/-- A batch that meets a table not in its first slot has one in its first slot too, or
starts where the pages before it have ended inside a block. -/
def FindsTables (t : MmuTree) (call : MapCall A) : Prop :=
  ∀ m, call.first ≤ m → m < call.stop → t.node 3 m ≠ none → ¬FirstUnit call.first m →
    t.node 3 (max call.first (m / 512 * 512)) ≠ none ∨
      max call.first (m / 512 * 512) = call.first ∧ call.address % 2097152 ≠ 0

/-- Pages, blocks from where these end, and pages again. -/
structure Consecutive (leading blocks trailing : MapCall A) : Prop where
  regular : leading.kind.Regular ∧ blocks.kind.Regular ∧ trailing.kind.Regular
  leading_level : leading.kind.destinationLevel = 3
  blocks_level : blocks.kind.destinationLevel = 2
  trailing_level : trailing.kind.destinationLevel = 3
  aligned : leading.address % 4096 = 0
  start : blocks.address = leading.address + u32 leading.count * 4096
  inside : blocks.address % 2097152 ≠ 0 → 0 < u32 leading.count
  trailing_start : trailing.address = blocks.address + u32 blocks.count * 2097152

namespace Consecutive

variable {leading blocks trailing : MapCall A} (hc : Consecutive leading blocks trailing)

include hc

/-- In the tree after the leading pages the blocks find the tables they fill. -/
theorem straight {s s₁ : Mmu A} {root : Nat} {t t₁ : MmuTree} (hconfined : Confined root s t s₁ t₁)
    (hreshaped : Reshaped 3 leading.first leading.stop t t₁)
    (hmade : ∀ j, leading.first ≤ j → j < leading.stop → t₁.node 3 (j / 512) ≠ none)
    (hfinds : FindsTables t blocks) : Straight t₁ blocks.first blocks.stop := by
  have hfrom : leading.first = leading.address / 4096 := by
    rw [MapCall.first, UnitKind.unitSize, hc.leading_level, mmuSizeOfLevelRegion_three]
  have hstop : leading.stop = leading.address / 4096 + u32 leading.count := by
    rw [MapCall.stop, hfrom]
  have hfirst : blocks.first = (leading.address + u32 leading.count * 4096) / 2097152 := by
    rw [MapCall.first, hc.start, UnitKind.unitSize, hc.blocks_level, mmuSizeOfLevelRegion_two]
  obtain ⟨hshared, hlast⟩ := pages_end hc.aligned hstop hfirst
  intro m hlo hhi htable hnew
  have hold : t.node 3 m ≠ none := by
    rcases hreshaped.table htable with hold | ⟨-, -, hlt⟩
    · exact hold
    · refine absurd (.inl ?_) hnew
      omega
  rcases hfinds m hlo hhi hold hnew with hslot | ⟨hslot, hmod⟩
  · obtain ⟨c, hcell⟩ := Option.ne_none_iff_exists'.mp hslot
    rw [hconfined.kept hcell]
    exact Option.some_ne_none c
  · obtain ⟨hunit, hlo', hhi'⟩ := hlast (hc.start ▸ hmod) (hc.inside hmod)
    rw [hslot, ← hunit]
    exact hmade _ (hfrom ▸ hlo') hhi'

/-- The trailing pages lie behind the blocks. -/
theorem trailing_slot {j : Nat} (hj : trailing.first ≤ j) :
    blocks.stop ≤ slotNumber 2 (j * trailing.kind.unitSize) := by
  have hsize : trailing.kind.unitSize = 4096 := by
    rw [UnitKind.unitSize, hc.trailing_level, mmuSizeOfLevelRegion_three]
  have hstop : blocks.stop = blocks.address / 2097152 + u32 blocks.count := by
    rw [MapCall.stop, MapCall.first, UnitKind.unitSize, hc.blocks_level, mmuSizeOfLevelRegion_two]
  rw [MapCall.first, hsize, hc.trailing_start] at hj
  rw [hstop, hsize, slotNumber, show regionSize 2 = 2097152 from rfl]
  omega

theorem confined {fin s : Mmu A} {root : Nat} {t : MmuTree} (h : HoldsTree s.mem root t)
    (hspace : ∀ call ∈ [leading, blocks, trailing],
      call.address + u32 call.count * call.kind.unitSize ≤ 2 ^ 48)
    (hlow : ∀ call ∈ [leading, blocks, trailing], ∀ j, call.first ≤ j → j < call.stop →
      LowOnWay t (j * call.kind.unitSize) call.kind.destinationLevel)
    (hfinds : FindsTables t blocks) (hans : Answers t s fin)
    (hfin : Precedes (trailing.run pages (setKernelSpace root) (blocks.run pages (setKernelSpace root)
      (leading.run pages (setKernelSpace root) s))) fin) :
    (∃ t', Confined root s t (trailing.run pages (setKernelSpace root)
      (blocks.run pages (setKernelSpace root) (leading.run pages (setKernelSpace root) s))) t') ∨
    Spoiled root s fin := by
  obtain ⟨hleading, hblocks, htrailing⟩ := hc.regular
  simp only [List.forall_mem_cons] at hspace hlow
  generalize hs₁ : leading.run pages (setKernelSpace root) s = s₁ at hfin ⊢
  generalize hs₂ : blocks.run pages (setKernelSpace root) s₁ = s₂ at hfin ⊢
  have hfin₂ : Precedes s₂ fin := (MapCall.run_precedes htrailing _ s₂).trans hfin
  have hfin₁ : Precedes s₁ fin := by
    rw [← hs₂] at hfin₂
    exact (MapCall.run_precedes hblocks _ s₁).trans hfin₂
  rcases MapCall.run_confined hleading h hspace.1 hlow.1
    (fun htwo => absurd (hc.leading_level.symm.trans htwo) (by decide)) hans (hs₁ ▸ hfin₁) with
    ⟨t₁, hconfined₁, hreshaped₁, hmade⟩ | hspoiled
  · rw [hs₁] at hconfined₁
    rw [hc.leading_level] at hreshaped₁ hmade
    have hlow₁ : ∀ {va dest}, dest ≤ 3 → LowOnWay t va dest → LowOnWay t₁ va dest :=
      fun hdest hlow => hlow.reshaped hreshaped₁ hdest fun hlt => absurd hdest (by omega)
    rcases MapCall.run_confined hblocks hconfined₁.tree hspace.2.1
      (fun j hlo hhi => hlow₁ hblocks.le (hlow.2.1 j hlo hhi))
      (fun _ => hc.straight hconfined₁ hreshaped₁ (hmade rfl) hfinds)
      (hconfined₁.answers hans hfin₁.recorded) (hs₂ ▸ hfin₂) with ⟨t₂, hconfined₂, hreshaped₂, -⟩ | hspoiled
    · rw [hs₂] at hconfined₂
      rw [hc.blocks_level] at hreshaped₂
      rcases MapCall.run_confined htrailing hconfined₂.tree hspace.2.2.1
        (fun j hlo hhi => (hlow₁ htrailing.le (hlow.2.2.1 j hlo hhi)).reshaped hreshaped₂ htrailing.le
          fun _ hin => absurd (hc.trailing_slot hlo) (Nat.not_le.mpr hin.2))
        (fun htwo => absurd (hc.trailing_level.symm.trans htwo) (by decide))
        (hconfined₂.answers (hconfined₁.answers hans hfin₁.recorded) hfin₂.recorded) hfin with
        ⟨t₃, hconfined₃, -⟩ | hspoiled
      · exact .inl ⟨t₃, (hconfined₁.trans hconfined₂).trans hconfined₃⟩
      · exact .inr (hspoiled.mono (hconfined₁.trans hconfined₂).recorded)
    · exact .inr (hspoiled.mono hconfined₁.recorded)
  · exact .inr hspoiled

end Consecutive

/-! ## An insertion -/

namespace Insertion

/-- What has to hold of an insertion and a tree besides the answers: its calls stay
within the address space, split no block at or above 2 GB, and find their tables. -/
structure Unobstructed (op : Insertion A) (t : MmuTree) : Prop where
  space : ∀ call ∈ op.calls, call.address + u32 call.count * call.kind.unitSize ≤ 2 ^ 48
  low : ∀ call ∈ op.calls, ∀ j, call.first ≤ j → j < call.stop →
    LowOnWay t (j * call.kind.unitSize) call.kind.destinationLevel
  finds : ∀ call ∈ op.calls, call.kind.destinationLevel = 2 → FindsTables t call

variable {op : Insertion A}

/-- The distance to the first block, and the pages it is taken for. -/
theorem leading_facts (hspace : op.address ≤ 2 ^ 48) (hblock : op.HasBlock) :
    op.leading < 2097152 ∧ (op.address % 2097152 ≠ 0 → 0 < op.leading) := by
  have hblockAddress : op.blockAddress = (op.address + 2 ^ 21 - 1) / 2 ^ 21 * 2 ^ 21 := by
    rw [blockAddress, mmuSizeOfLevelRegion_two, show 2097152 = 2 ^ 21 by rfl,
      alignUp64_two_pow (by decide) (by omega)]
  have hgap : sub64 op.blockAddress op.address = op.blockAddress - op.address := sub64_of_le (by omega)
  have hroom : op.blockAddress - op.address + 2097152 ≤ op.size := by
    have h : u64 (sub64 op.blockAddress op.address + mmuSizeOfLevelRegion 2) ≤ op.size := hblock
    rwa [hgap, mmuSizeOfLevelRegion_two, u64_of_lt (by omega)] at h
  rw [leading, hgap]
  omega

theorem consecutive (haligned : op.address % 4096 = 0) (hblock : op.HasBlock)
    (hspace : ∀ call ∈ op.calls, call.address + u32 call.count * call.kind.unitSize ≤ 2 ^ 48) :
    Consecutive ⟨pageUnits op.memoryType op.getPhysSpace, op.address, op.leading⟩
      ⟨blockUnits op.memoryType op.getPhysSpace, u64 (op.address + op.blockOffset), op.blocks⟩
      ⟨pageUnits op.memoryType op.getPhysSpace, u64 (op.address + op.trailingOffset), op.trailing⟩ := by
  have hpage : (pageUnits op.memoryType op.getPhysSpace).unitSize = 4096 := mmuSizeOfLevelRegion_three
  have hunit : (blockUnits op.memoryType op.getPhysSpace).unitSize = 2097152 := mmuSizeOfLevelRegion_two
  rw [calls, if_pos hblock] at hspace
  simp only [List.forall_mem_cons, hpage, hunit] at hspace
  obtain ⟨hspace₁, hspace₂, -⟩ := hspace
  obtain ⟨hleading, hpos⟩ := leading_facts (by omega) hblock
  have hcut : u32 op.leading = op.leading := u32_of_lt (by omega)
  rw [hcut] at hspace₁
  have hblockOffset : op.blockOffset = op.leading * 4096 := by
    rw [blockOffset, hcut, mmuPageSize_eq, u64_of_lt (by omega)]
  rw [hblockOffset, u64_of_lt (by omega)] at hspace₂
  have hstart : u64 (op.address + op.blockOffset) = op.address + op.leading * 4096 := by
    rw [hblockOffset, u64_of_lt (by omega)]
  have htrailingOffset : op.trailingOffset = op.leading * 4096 + u32 op.blocks * 2097152 := by
    rw [trailingOffset, hblockOffset, mmuSizeOfLevelRegion_two, u64_of_lt (by omega)]
  have hend : u64 (op.address + op.trailingOffset) =
      op.address + op.leading * 4096 + u32 op.blocks * 2097152 := by
    rw [htrailingOffset, ← Nat.add_assoc, u64_of_lt (by omega)]
  refine
    { regular := ⟨UnitKind.pageUnits_regular _ _, UnitKind.blockUnits_regular _ _,
        UnitKind.pageUnits_regular _ _⟩
      leading_level := rfl
      blocks_level := rfl
      trailing_level := rfl
      aligned := haligned
      start := ?_
      inside := fun hmod => ?_
      trailing_start := ?_ }
  · dsimp only
    rw [hstart, hcut]
  · dsimp only at hmod ⊢
    rw [hstart] at hmod
    rw [hcut]
    by_contra hzero
    obtain hzero : op.leading = 0 := by omega
    rw [hzero, Nat.zero_mul, Nat.add_zero] at hmod
    have := hpos hmod
    omega
  · dsimp only
    rw [hend, hstart]

/-- `memory_mmu_insert` confines itself, or a page was missing. -/
theorem apply_confined {fin s : Mmu A} {root : Nat} {t : MmuTree} (haligned : op.address % 4096 = 0)
    (hop : op.Unobstructed t) (h : HoldsTree s.mem root t) (hans : Answers t s fin)
    (hfin : Precedes (op.apply pages (setKernelSpace root) s) fin) :
    (∃ t', Confined root s t (op.apply pages (setKernelSpace root) s) t') ∨ Spoiled root s fin := by
  rw [apply_eq_foldl] at hfin ⊢
  obtain ⟨hspace, hlow, hfinds⟩ := hop
  by_cases hblock : op.HasBlock
  · have hconsecutive := consecutive haligned hblock hspace
    rw [calls, if_pos hblock] at hspace hlow hfinds hfin ⊢
    rw [List.foldl_cons, List.foldl_cons, List.foldl_cons, List.foldl_nil] at hfin ⊢
    exact hconsecutive.confined h hspace hlow
      (hfinds _ (List.mem_cons_of_mem _ (List.mem_cons_self ..)) rfl) hans hfin
  · rw [calls, if_neg hblock] at hspace hlow hfin ⊢
    rw [List.foldl_cons, List.foldl_nil] at hfin ⊢
    rw [List.forall_mem_singleton] at hspace hlow
    rcases MapCall.run_confined (UnitKind.pageUnits_regular _ _) h hspace hlow
      (fun (htwo : 3 = 2) => absurd htwo (by decide)) hans hfin with ⟨t', hconfined, -⟩ | hspoiled
    · exact .inl ⟨t', hconfined⟩
    · exact .inr hspoiled

end Insertion

/-! ## The property -/

/-- The byte at `pa` lies in a page or block that the allocator gave from `s` to `s'`. -/
def GrantedPa (s s' : Mmu A) (pa : Nat) : Prop :=
  (∃ a, TakenSince s s' a ∧ a ≠ null ∧ a ≤ pa ∧ pa < a + mmuPageSize) ∨
    ∃ request addr, GrantedSince s s' request addr ∧ addr ≠ null ∧ addr ≤ pa ∧
      pa < addr + request.pageCount * mmuPageSize

/-- From `s` to `s'` nothing was stored but into the tree and into grants, every table
that can be reached belongs to the tree or was granted, and so does the memory of
every address that was not mapped there before. -/
structure Contained (root : Nat) (s : Mmu A) (t : MmuTree) (s' : Mmu A) : Prop where
  stores : ∀ w, (∀ a, t.HasTable a → ¬InTable a w) → ¬GrantedPa s s' (w * 8) → s'.mem w = s.mem w
  tables : ∀ va < 2 ^ 48, ∀ levels ≤ 3, ∀ a, walkTable s'.mem levels 0 root va = some a →
    t.HasTable a ∨ GrantedPa s s' a
  leaves : ∀ va < 2 ^ 48, ∀ pa, walkPa s'.mem root va = some pa →
    walkPa s.mem root va = some pa ∨ GrantedPa s s' pa

/-- No page that was asked for was missing. -/
structure NoneMissing (s s' : Mmu A) : Prop where
  tables : ∀ a, TakenSince s s' a → a ≠ null
  grants : ∀ request addr, GrantedSince s s' request addr → addr ≠ null

theorem not_grantedPa_null (s s' : Mmu A) : ¬GrantedPa s s' null := by
  rintro (⟨a, -, hne, hle, -⟩ | ⟨request, addr, -, hne, hle, -⟩)
  · exact hne (Nat.le_zero.mp hle)
  · exact hne (Nat.le_zero.mp hle)

/-- In a confined state with no page missing, only the tree and grants are used. -/
theorem Confined.contained {s s' : Mmu A} {root : Nat} {t t' : MmuTree} (h : Confined root s t s' t')
    (hnone : NoneMissing s s') : Contained root s t s' where
  stores w hw hgranted := by
    refine h.mem w fun a ha hin => ?_
    obtain ⟨new, htables, -, hadded⟩ := h.added
    rcases hadded a ha with hold | hnew
    · exact hw a hold hin
    · have htaken : TakenSince s s' a := ⟨new, htables, hnew⟩
      obtain ⟨hpage, -⟩ : IsTableAddress a := by
        obtain ⟨level, n, hnode⟩ := ha
        exact h.tree.address hnode
      obtain ⟨hlo, hhi⟩ := hin
      refine hgranted (.inl ⟨a, htaken, hnone.tables a htaken, by omega, ?_⟩)
      rw [mmuPageSize_eq]
      omega
  tables va hva levels hlevels a hwalk := by
    have hstart : t'.node 0 (slotNumber 0 va / 512) = some root := by
      rw [h.tree.root_node, if_pos]
      simp only [slotNumber, regionSize]
      omega
    have hnode := HoldsTree.node_of_walkTable h.tree (by omega) hstart hwalk
    obtain ⟨new, htables, -, hadded⟩ := h.added
    rcases hadded a ⟨_, _, hnode⟩ with hold | hnew
    · exact .inl hold
    · have htaken : TakenSince s s' a := ⟨new, htables, hnew⟩
      refine .inr (.inl ⟨a, htaken, hnone.tables a htaken, Nat.le_refl a, ?_⟩)
      exact Nat.lt_add_of_pos_right (by decide)
  leaves va hva pa hpa := by
    rcases h.walk va hva with hkept | ⟨-, request, addr, pa', hgrant, hpa', hin⟩
    · exact .inl (hkept.symm.trans hpa)
    · obtain rfl : pa' = pa := Option.some.inj (hpa'.symm.trans hpa)
      exact .inr (.inr ⟨request, addr, hgrant, hnone.grants request addr hgrant, hin⟩)

/-- A missing page shows: as a table that is linked, or as memory that is mapped. -/
theorem Contained.noneMissing {s s' : Mmu A} {root : Nat} {t t' : MmuTree} (h : Contained root s t s')
    (hconfined : Confined root s t s' t') : NoneMissing s s' where
  tables a htaken := by
    rintro rfl
    obtain ⟨new, htables, hnull, -⟩ := hconfined.added
    obtain ⟨taken, htables', hin⟩ := htaken
    rw [List.append_cancel_right (htables'.symm.trans htables)] at hin
    exact hnull hin
  grants request addr hgrant := by
    rintro rfl
    obtain ⟨va, hva, hnone, hpa⟩ := hconfined.served request null hgrant
    rcases h.leaves va hva null hpa with hold | hgranted
    · rw [hnone] at hold
      cases hold
    · exact not_grantedPa_null s s' hgranted

theorem Spoiled.not_contained {s s' : Mmu A} {root : Nat} {t : MmuTree} (h : Spoiled root s s')
    (hnull : ¬t.HasTable null) : ¬Contained root s t s' := by
  intro hcontained
  obtain ⟨-, va, hva, levels, hlevels, hwalk⟩ := h
  rcases hcontained.tables va hva levels hlevels null hwalk with hold | hgranted
  · exact hnull hold
  · exact not_grantedPa_null s s' hgranted

/-! ## Contexts and regions -/

/-- `get_phys_space_alloc` of an allocator. -/
def allocSpace (pages : PageHeap A) : GetPhysSpace A := fun request heap =>
  pages.pagesAlloc heap request.pageCount request.align

/-- `memory_map_region(.., region, MEMORY_MAP_ALLOC)`. -/
def mapAlloc (pages : PageHeap A) (region : MemoryRegion) : Insertion A :=
  { address := region.va, size := region.size, memoryType := region.memoryType,
    getPhysSpace := allocSpace pages }

theorem memoryMapRegion_alloc (m : Memory) (level0Table : Nat) (region : MemoryRegion) :
    m.memoryMapRegion level0Table region .alloc =
      (mapAlloc allocatorPages region).apply allocatorPages level0Table m := rfl

/-- `memory_create_context` stores into the page it is granted only, whatever memory holds. -/
def CreatesContained (pages : PageHeap A) (heap : A) : Prop :=
  ∀ s : Mmu A, s.heap = heap → ∀ w, ¬GrantedPa s (s.memoryMmuCreateTable pages).2 (w * 8) →
    (s.memoryMmuCreateTable pages).2.mem w = s.mem w

theorem createsContained_iff {heap : A} (hpage : IsTableAddress (pages.pagesAlloc heap 1 1).1) :
    CreatesContained pages heap ↔ (pages.pagesAlloc heap 1 1).1 ≠ null := by
  constructor
  · intro h hnull
    have hpage' : IsTableAddress ((blank (fun _ => 1) heap).newPage pages) := hpage
    have hcleared : ((blank (fun _ => 1) heap).memoryMmuCreateTable pages).2.mem 0 = 0 := by
      rw [createTable_mem hpage']
      refine if_pos ?_
      rw [show (blank (fun _ => 1) heap).newPage pages = null from hnull]
      decide
    have hkept := h (blank (fun _ => 1) heap) rfl 0 (not_grantedPa_null _ _)
    rw [hcleared] at hkept
    exact Nat.zero_ne_one hkept
  · rintro hne s rfl w hout
    have hpage' : IsTableAddress (s.newPage pages) := hpage
    rw [createTable_mem hpage']
    refine if_neg fun hin => hout (.inl ⟨s.newPage pages, ?_, hne, ?_⟩)
    · exact ⟨[s.newPage pages], rfl, List.mem_singleton_self _⟩
    · obtain ⟨hmod, -⟩ := hpage'
      obtain ⟨hlo, hhi⟩ := hin
      rw [mmuPageSize_eq]
      omega

/-- One page at address 0. -/
def firstPage : MemoryRegion := { memoryType := 0, va := 0, size := 0x1000 }

theorem firstPage_calls (pages : PageHeap A) : (mapAlloc pages firstPage).calls =
    [⟨pageUnits 0 (allocSpace pages), 0, 1⟩] := by
  have hshort : ¬(mapAlloc pages firstPage).HasBlock := by
    unfold Insertion.HasBlock Insertion.blockAddress
    show ¬u64 (sub64 (alignUp64 0 (mmuSizeOfLevelRegion 2)) 0 + mmuSizeOfLevelRegion 2) ≤ 0x1000
    decide
  have hcount : (mapAlloc pages firstPage).size / mmuPageSize = 1 := by
    show 0x1000 / mmuPageSize = 1
    decide
  rw [Insertion.calls, if_neg hshort, hcount]
  rfl

/-- Nothing is in the way of a page under a root without entries. -/
theorem firstPage_unobstructed (pages : PageHeap A) (root : Nat) :
    (mapAlloc pages firstPage).Unobstructed (MmuTree.bare root) := by
  constructor
  · rw [firstPage_calls, List.forall_mem_singleton]
    have hunit : (pageUnits 0 (allocSpace pages)).unitSize = 4096 := mmuSizeOfLevelRegion_three
    rw [hunit]
    show 0 + u32 1 * 4096 ≤ 2 ^ 48
    decide
  · rintro call hcall j hlo hhi l hl e ⟨⟩
  · rw [firstPage_calls, List.forall_mem_singleton]
    exact fun (htwo : 3 = 2) => absurd htwo (by decide)

theorem not_hasTable_bare {root a : Nat} (hne : a ≠ root) : ¬(MmuTree.bare root).HasTable a := by
  rintro ⟨level, n, hnode⟩
  exact hne (MmuTree.bare_node_eq_some.mp hnode).2.2

/-- An allocator with so many pages left. -/
def scarce : PageHeap Nat where
  pagesAlloc left number _ := if number ≤ left then (left * 4096, left - number) else (null, left)
  pagesDealloc left _ _ := left

/-- The page, with so many pages left. -/
def firstPageMapped (left : Nat) : Mmu Nat :=
  (mapAlloc scarce firstPage).apply scarce (setKernelSpace 0x80000) (blank (fun _ => 0) left)

theorem firstPageMapped_iff {left addr : Nat} {taken : List Nat}
    (htables : (firstPageMapped left).tables = taken)
    (hgrants : (firstPageMapped left).grants = [(⟨0, 1, 1⟩, addr)])
    (hpairwise : taken.Pairwise fun a b => a = null ∨ a ≠ b)
    (hnew : ∀ a ∈ taken, a % 4096 = 0 ∧ a < 0x80000 ∧ a ≠ null) (haddr : addr % 4096 = 0 ∧ addr < 2 ^ 48) :
    Answers (MmuTree.bare 0x80000) (blank (fun _ => 0) left) (firstPageMapped left) ∧
      (NoneMissing (blank (fun _ => 0) left) (firstPageMapped left) ↔ addr ≠ null) := by
  have htaken : ∀ a, TakenSince (blank (fun _ => 0) left) (firstPageMapped left) a → a ∈ taken := by
    rintro a ⟨taken', htaken, ha⟩
    have hall : (firstPageMapped left).tables = taken' := htaken.trans (List.append_nil taken')
    rwa [← hall, htables] at ha
  have hgranted : ∀ request addr', GrantedSince (blank (fun _ => 0) left) (firstPageMapped left) request addr' ↔
      request = ⟨0, 1, 1⟩ ∧ addr' = addr := by
    intro request addr'
    rw [grantedSince_iff, hgrants]
    constructor
    · rintro ⟨new, hnew, hin⟩
      rw [← hnew.trans (List.append_nil new), List.mem_singleton] at hin
      exact Prod.mk.inj hin
    · rintro ⟨rfl, rfl⟩
      exact ⟨_, rfl, List.mem_singleton_self _⟩
  refine ⟨⟨⟨taken, htables.trans (List.append_nil taken).symm, hpairwise, fun a ha => ?_⟩,
    fun request addr' hgrant => ?_⟩, fun hnone => ?_,
    fun hne => ⟨fun a ha => ?_, fun request addr' hgrant => ?_⟩⟩
  · obtain ⟨hpage, hlt, -⟩ := hnew a ha
    exact ⟨⟨hpage, by omega⟩, not_hasTable_bare (by omega)⟩
  · obtain ⟨rfl, rfl⟩ := (hgranted request addr').mp hgrant
    rwa [Nat.one_mul, mmuPageSize_eq]
  · exact hnone.grants _ _ ((hgranted _ _).mpr ⟨rfl, rfl⟩)
  · exact (hnew a (htaken a ha)).2.2
  · rwa [((hgranted request addr').mp hgrant).2]

/-- An allocator without pages. -/
def exhausted : PageHeap Unit where
  pagesAlloc _ _ _ := (null, ())
  pagesDealloc _ _ _ := ()

/-- The page, with no memory at all. -/
def firstPageMissing : Mmu Unit :=
  (mapAlloc exhausted firstPage).apply exhausted (setKernelSpace 0x80000) (blank (fun _ => 0) ())

end Mmu
end PiVOS
