-- SUMMARY: Mapping over any tree stays within the tree and what is granted, until a page is missing.
import PiVOS.Memory.Mmu.Calls
import PiVOS.Memory.Mmu.Keeps

/-!
# Confined mapping

As long as every page asked for is granted, the table code stays within the tables
of the tree and the new ones, keeps what was mapped at its place and maps nothing
but grants. The first missing page is linked as a table at address 0, and that
link stays to the end.
-/

namespace PiVOS

open MmuTree

/-- The physical address the walk comes to. -/
def walkPa (mem : Nat → Nat) (root va : Nat) : Option Nat := (walk mem root va).map (·.pa)

namespace HoldsTree

variable {mem : Nat → Nat} {root : Nat} {t : MmuTree}

theorem walkPa_of_leaf (h : HoldsTree mem root t) {va level e : Nat} (hva : va < 2 ^ 48)
    (hleaf : t.leaf level (slotNumber level va) = some e) :
    walkPa mem root va = some (outputAddress level e + va % regionSize level) := by
  rw [walkPa, h.walk_of_leaf hva hleaf]
  rfl

/-- An address whose way ends in an empty slot is not mapped. -/
theorem walkPa_of_empty (h : HoldsTree mem root t) {va level a : Nat} (hva : va < 2 ^ 48)
    (hnode : t.node level (slotNumber level va / 512) = some a)
    (hleaf : t.leaf level (slotNumber level va) = none)
    (hbelow : t.node (level + 1) (slotNumber level va) = none) : walkPa mem root va = none := by
  have hnone : ∀ l, t.leaf l (slotNumber l va) = none := by
    intro l
    rcases Nat.lt_trichotomy l level with hl | rfl | hl
    · exact h.leaf_eq_none_above hnode hl
    · exact hleaf
    · cases hsome : t.leaf l (slotNumber l va) with
      | none => rfl
      | some e =>
        have hdepth : l ≤ 3 := by
          rcases h.leaf_entry hsome with ⟨hlevel, -⟩ | ⟨hlevel, -⟩ <;> omega
        obtain ⟨b, hb⟩ := h.wellFormed.node_above_leaf (slotNumber_path va) hdepth hsome hl
        rw [hbelow] at hb
        cases hb
  rw [walkPa, h.walk_of_no_leaf hva hnone]
  rfl

/-- Addresses with the same leaves on their way are mapped alike. -/
theorem walkPa_congr (h : HoldsTree mem root t) {mem' : Nat → Nat} {t' : MmuTree}
    (h' : HoldsTree mem' root t') {va : Nat} (hva : va < 2 ^ 48)
    (hleaf : ∀ l, t'.leaf l (slotNumber l va) = t.leaf l (slotNumber l va)) :
    walkPa mem' root va = walkPa mem root va := by
  rw [walkPa, walkPa, walk_eq_map, walk_eq_map, h.walkEntry_eq hva, h'.walkEntry_eq hva,
    h.wellFormed.find_congr h'.wellFormed (slotNumber_path va) (by decide) hleaf]

end HoldsTree

namespace Mmu

variable {A : Type} {pages : PageHeap A} {kind : UnitKind A}

/-! ## What is asked of the answers -/

theorem grantedSince_iff {s s' : Mmu A} {request : MmuPhysSpaceRequest} {addr : Nat} :
    GrantedSince s s' request addr ↔ ∃ new, s'.grants = new ++ s.grants ∧ (request, addr) ∈ new := by
  constructor
  · rintro ⟨later, earlier, hgrants⟩
    exact ⟨later ++ (request, addr) :: earlier, by rw [hgrants, List.append_assoc, List.cons_append],
      List.mem_append_right _ (List.mem_cons_self ..)⟩
  · rintro ⟨new, hgrants, hmem⟩
    obtain ⟨later, earlier, rfl⟩ := List.append_of_mem hmem
    exact ⟨later, earlier, by rw [hgrants, List.append_assoc, List.cons_append]⟩

theorem GrantedSince.split {s s₁ s₂ : Mmu A} {request : MmuPhysSpaceRequest} {addr : Nat}
    (h : GrantedSince s s₂ request addr) (h₁ : RecordedIn s s₁) (h₂ : RecordedIn s₁ s₂) :
    GrantedSince s s₁ request addr ∨ GrantedSince s₁ s₂ request addr := by
  obtain ⟨new, hnew, hmem⟩ := grantedSince_iff.mp h
  obtain ⟨new₁, hnew₁⟩ := h₁.grants
  obtain ⟨new₂, hnew₂⟩ := h₂.grants
  have hparts : new = new₂ ++ new₁ := by
    rw [← hnew₂, ← hnew₁, ← List.append_assoc] at hnew
    exact (List.append_cancel_right hnew).symm
  rw [hparts, List.mem_append] at hmem
  rcases hmem with hmem | hmem
  · exact .inr (grantedSince_iff.mpr ⟨new₂, hnew₂.symm, hmem⟩)
  · exact .inl (grantedSince_iff.mpr ⟨new₁, hnew₁.symm, hmem⟩)

/-- No memory was granted between records with the same grants. -/
theorem not_grantedSince {s s' : Mmu A} (hgrants : s'.grants = s.grants) (request : MmuPhysSpaceRequest)
    (addr : Nat) : ¬GrantedSince s s' request addr := by
  intro hgrant
  obtain ⟨new, hnew, hin⟩ := grantedSince_iff.mp hgrant
  rw [hgrants, List.self_eq_append_left] at hnew
  rw [hnew] at hin
  exact absurd hin List.not_mem_nil

/-- The answers from `s` to `fin` are those of an allocator that may be exhausted: pages
for tables are distinct, below 64 GB and not yet tables of the tree, memory is aligned to
its size. `NULL` may be answered any number of times. -/
structure Answers (t : MmuTree) (s fin : Mmu A) : Prop where
  tables : ∃ taken, fin.tables = taken ++ s.tables ∧ taken.Pairwise (fun a b => a = null ∨ a ≠ b) ∧
    ∀ a ∈ taken, IsSubtableAddress a ∧ ¬t.HasTable a
  grants : ∀ request addr, GrantedSince s fin request addr →
    addr % (request.pageCount * mmuPageSize) = 0 ∧ addr < 2 ^ 48

/-! ## Confinement -/

/-- From `s` and `t` to `s'` and `t'` the tree grew by pages that are not `NULL`, memory
outside of it is the same, addresses that were mapped are mapped where they were,
and those that were not are mapped into grants, each of which has an address. -/
structure Confined (root : Nat) (s : Mmu A) (t : MmuTree) (s' : Mmu A) (t' : MmuTree) : Prop where
  tree : HoldsTree s'.mem root t'
  recorded : RecordedIn s s'
  kept : ∀ {level n a}, t.node level n = some a → t'.node level n = some a
  added : ∃ new, s'.tables = new ++ s.tables ∧ null ∉ new ∧ ∀ a, t'.HasTable a → t.HasTable a ∨ a ∈ new
  mem : ∀ w, (∀ a, t'.HasTable a → ¬InTable a w) → s'.mem w = s.mem w
  walk : ∀ va < 2 ^ 48, walkPa s'.mem root va = walkPa s.mem root va ∨
    walkPa s.mem root va = none ∧ ∃ request addr pa, GrantedSince s s' request addr ∧
      walkPa s'.mem root va = some pa ∧ addr ≤ pa ∧ pa < addr + request.pageCount * mmuPageSize
  served : ∀ request addr, GrantedSince s s' request addr →
    ∃ va < 2 ^ 48, walkPa s.mem root va = none ∧ walkPa s'.mem root va = some addr

/-- A page asked for is missing, and the table at address 0 is linked in the end. -/
def Spoiled (root : Nat) (s fin : Mmu A) : Prop :=
  TakenSince s fin null ∧ ∃ va < 2 ^ 48, ∃ levels ≤ 3, walkTable fin.mem levels 0 root va = some null

theorem Spoiled.mono {root : Nat} {s s₁ fin : Mmu A} (h : Spoiled root s₁ fin) (hs : RecordedIn s s₁) :
    Spoiled root s fin :=
  ⟨h.1.mono hs, h.2⟩

namespace Confined

variable {root : Nat} {s s₁ s₂ : Mmu A} {t t₁ t₂ : MmuTree}

theorem hasTable (h : Confined root s t s₁ t₁) {a : Nat} (ha : t.HasTable a) : t₁.HasTable a := by
  obtain ⟨level, n, hnode⟩ := ha
  exact ⟨level, n, h.kept hnode⟩

/-- Where memory and record are the same. -/
theorem of_eq (htree : HoldsTree s.mem root t) (hmem : s₁.mem = s.mem) (htables : s₁.tables = s.tables)
    (hgrants : s₁.grants = s.grants) : Confined root s t s₁ t where
  tree := hmem ▸ htree
  recorded := ⟨by rw [htables], by rw [hgrants]⟩
  kept := id
  added := ⟨[], htables, List.not_mem_nil, fun _ => .inl⟩
  mem _ _ := by rw [hmem]
  walk _ _ := .inl (by rw [hmem])
  served request addr hgrant := absurd hgrant (not_grantedSince hgrants request addr)

theorem refl (htree : HoldsTree s.mem root t) : Confined root s t s t := .of_eq htree rfl rfl rfl

theorem trans (h₁ : Confined root s t s₁ t₁) (h₂ : Confined root s₁ t₁ s₂ t₂) :
    Confined root s t s₂ t₂ where
  tree := h₂.tree
  recorded := h₁.recorded.trans h₂.recorded
  kept h := h₂.kept (h₁.kept h)
  added := by
    obtain ⟨new₁, htables₁, hnull₁, hadded₁⟩ := h₁.added
    obtain ⟨new₂, htables₂, hnull₂, hadded₂⟩ := h₂.added
    refine ⟨new₂ ++ new₁, by rw [htables₂, htables₁, List.append_assoc], fun hmem => ?_, fun a ha => ?_⟩
    · exact (List.mem_append.mp hmem).elim hnull₂ hnull₁
    · rcases hadded₂ a ha with ha | ha
      · exact (hadded₁ a ha).imp id (List.mem_append_right _)
      · exact .inr (List.mem_append_left _ ha)
  mem w hw := by
    rw [h₂.mem w hw, h₁.mem w fun a ha => hw a (h₂.hasTable ha)]
  walk va hva := by
    rcases h₁.walk va hva with h | ⟨hnone, request, addr, pa, hgrant, hpa, hin⟩
    · rcases h₂.walk va hva with h' | ⟨hnone', request, addr, pa, hgrant, hpa, hin⟩
      · exact .inl (h'.trans h)
      · exact .inr ⟨h.symm.trans hnone', request, addr, pa, hgrant.mono h₁.recorded (.refl s₂), hpa, hin⟩
    · rcases h₂.walk va hva with h' | ⟨hnone', -⟩
      · exact .inr ⟨hnone, request, addr, pa, hgrant.mono (.refl s) h₂.recorded, h'.trans hpa, hin⟩
      · rw [hpa] at hnone'
        cases hnone'
  served request addr hgrant := by
    rcases hgrant.split h₁.recorded h₂.recorded with hgrant | hgrant
    · obtain ⟨va, hva, hnone, hpa⟩ := h₁.served request addr hgrant
      refine ⟨va, hva, hnone, ?_⟩
      rcases h₂.walk va hva with h' | ⟨hnone', -⟩
      · exact h'.trans hpa
      · rw [hpa] at hnone'
        cases hnone'
    · obtain ⟨va, hva, hnone, hpa⟩ := h₂.served request addr hgrant
      refine ⟨va, hva, ?_, hpa⟩
      rcases h₁.walk va hva with h | ⟨hnone', -⟩
      · exact h.symm.trans hnone
      · exact hnone'

/-- What is answered later is new to the tree still. -/
theorem answers (h : Confined root s t s₁ t₁) {fin : Mmu A} (hans : Answers t s fin)
    (hfin : RecordedIn s₁ fin) : Answers t₁ s₁ fin := by
  obtain ⟨taken, htaken, hpairwise, hnew⟩ := hans.tables
  obtain ⟨new, hnew₁, hnull, hadded⟩ := h.added
  obtain ⟨later, hlater⟩ := hfin.tables
  have hparts : taken = later ++ new := by
    rw [← hlater, hnew₁, ← List.append_assoc] at htaken
    exact (List.append_cancel_right htaken).symm
  rw [hparts] at hpairwise hnew
  obtain ⟨hpairwise₁, -, hapart⟩ := List.pairwise_append.mp hpairwise
  refine ⟨⟨later, hlater.symm, hpairwise₁, fun a ha => ?_⟩, fun request addr hgrant => ?_⟩
  · obtain ⟨hpage, hfree⟩ := hnew a (List.mem_append_left _ ha)
    refine ⟨hpage, fun hhas => (hadded a hhas).elim hfree fun hin => ?_⟩
    rcases hapart a ha a hin with rfl | hne
    · exact hnull hin
    · exact hne rfl
  · exact hans.grants request addr (hgrant.mono h.recorded (.refl fin))

end Confined

/-! ## What becomes of leaves and page tables -/

/-- From `t` to `t'` the blocks are those there were, or below 2 GB, or units from `lo`
up to `hi` of level `dest`; tables of pages are new only for pages in that range. -/
structure Reshaped (dest lo hi : Nat) (t t' : MmuTree) : Prop where
  leaf : ∀ {l m e'}, l < 3 → t'.leaf l m = some e' →
    (∃ e, t.leaf l m = some e ∧ outputAddress l e' = outputAddress l e) ∨
      outputAddress l e' < 2 ^ 31 ∨ l = dest ∧ lo ≤ m ∧ m < hi
  table : ∀ {m}, t'.node 3 m ≠ none → t.node 3 m ≠ none ∨
    dest = 3 ∧ lo ≤ m * 512 + 511 ∧ m * 512 < hi

namespace Reshaped

variable {dest lo hi : Nat} {t t₁ t₂ : MmuTree}

theorem refl (dest lo hi : Nat) (t : MmuTree) : Reshaped dest lo hi t t :=
  ⟨fun _ hleaf => .inl ⟨_, hleaf, rfl⟩, .inl⟩

theorem trans (h₁ : Reshaped dest lo hi t t₁) (h₂ : Reshaped dest lo hi t₁ t₂) :
    Reshaped dest lo hi t t₂ where
  leaf hl hleaf := by
    rcases h₂.leaf hl hleaf with ⟨e₁, hleaf₁, houtput₁⟩ | hnew
    · rcases h₁.leaf hl hleaf₁ with ⟨e, hleaf₀, houtput⟩ | hnew
      · exact .inl ⟨e, hleaf₀, houtput₁.trans houtput⟩
      · exact .inr (houtput₁ ▸ hnew)
    · exact .inr hnew
  table htable := by
    rcases h₂.table htable with htable | hnew
    · exact h₁.table htable
    · exact .inr hnew

theorem mono (h : Reshaped dest lo hi t t₁) {lo' hi' : Nat} (hlo : lo' ≤ lo) (hhi : hi ≤ hi') :
    Reshaped dest lo' hi' t t₁ where
  leaf hl hleaf := (h.leaf hl hleaf).imp id (.imp id fun ⟨hdest, hm⟩ => ⟨hdest, by omega⟩)
  table htable := (h.table htable).imp id fun ⟨hdest, hm⟩ => ⟨hdest, by omega⟩

end Reshaped

/-! ## One slot -/

theorem outputAddress_withMemoryType {level e : Nat} (h : IsLeafEntry level e) (memoryType : Nat) :
    outputAddress level (mmuWithMemoryType e memoryType) = outputAddress level e := by
  have hcases : level = 1 ∨ level = 2 ∨ level = 3 := by
    rcases h with ⟨h, -⟩ | ⟨h, -⟩ <;> omega
  rcases hcases with rfl | rfl | rfl <;>
    simp only [outputAddress, regionSize, mmuWithMemoryType, mmuAttrIndx, bitField] <;> omega

/-- A descriptor that is overwritten by one for the same memory. -/
theorem Confined.overwrite {s s' : Mmu A} {root level n a i e e' : Nat} {t : MmuTree}
    (h : HoldsTree s.mem root t) (hnode : t.node level n = some a) (hi : i < 512)
    (hleaf : t.leaf level (n * 512 + i) = some e) (he' : IsLeafEntry level e')
    (houtput : outputAddress level e' = outputAddress level e)
    (hmem : s'.mem = Function.update s.mem (a / 8 + i) e') (htables : s'.tables = s.tables)
    (hgrants : s'.grants = s.grants) :
    Confined root s t s' (t.setLeaf level (n * 512 + i) e') := by
  have htree : HoldsTree s'.mem root (t.setLeaf level (n * 512 + i) e') := by
    rw [hmem]
    exact h.setLeaf hnode hi (h.wellFormed.leaf_end hleaf) he'
  refine
    { tree := htree
      recorded := ⟨by rw [htables], by rw [hgrants]⟩
      kept := id
      added := ⟨[], htables, List.not_mem_nil, fun _ => .inl⟩
      mem := fun w hw => ?_
      walk := fun va hva => .inl ?_
      served := fun request addr hgrant => absurd hgrant (not_grantedSince hgrants request addr) }
  · rw [hmem, Function.update_of_ne]
    rintro rfl
    exact hw a ⟨level, n, hnode⟩ (inTable_slot hi)
  · by_cases hslot : slotNumber level va = n * 512 + i
    · rw [htree.walkPa_of_leaf hva (by rw [hslot]; exact Radix.setLeaf_leaf_self),
        h.walkPa_of_leaf hva (by rw [hslot, hleaf]), houtput]
    · refine h.walkPa_congr htree hva fun l => Radix.setLeaf_leaf_of_ne ?_
      rintro ⟨rfl, heq⟩
      exact hslot heq

theorem UnitKind.Regular.outputAddress_entry (h : kind.Regular) {addr : Nat}
    (haligned : addr % kind.unitSize = 0) (haddr : addr < 2 ^ 48) :
    outputAddress kind.destinationLevel (kind.entry addr) = addr := by
  rw [h.unitSize] at haligned
  rcases h.level with hlevel | hlevel
  · rw [UnitKind.entry_block hlevel, hlevel]
    rw [hlevel] at haligned
    simp only [outputAddress, regionSize] at haligned ⊢
    omega
  · rw [UnitKind.entry_page hlevel, hlevel]
    rw [hlevel] at haligned
    simp only [outputAddress, regionSize] at haligned ⊢
    omega

theorem UnitKind.Regular.request_size (h : kind.Regular) (virtAddr : Nat) :
    (kind.request virtAddr).pageCount * mmuPageSize = kind.unitSize := by
  have hdvd : mmuPageSize ∣ kind.unitSize := by
    rw [UnitKind.unitSize, mmuPageSize_eq]
    rcases h.level with hlevel | hlevel
    · rw [hlevel, mmuSizeOfLevelRegion_two]
      decide
    · rw [hlevel, mmuSizeOfLevelRegion_three]
  rw [h.request_eq]
  exact Nat.div_mul_cancel hdvd

/-- Granted memory in an empty slot. -/
theorem Confined.grant (hkind : kind.Regular) {s s' : Mmu A} {root n a i virtAddr addr : Nat} {t : MmuTree}
    (h : HoldsTree s.mem root t) (hnode : t.node kind.destinationLevel n = some a) (hi : i < 512)
    (hleaf : t.leaf kind.destinationLevel (n * 512 + i) = none)
    (hbelow : t.node (kind.destinationLevel + 1) (n * 512 + i) = none)
    (hspace : (n * 512 + i) * kind.unitSize < 2 ^ 48)
    (haligned : addr % kind.unitSize = 0) (haddr : addr < 2 ^ 48)
    (hmem : s'.mem = Function.update s.mem (a / 8 + i) (kind.entry addr)) (htables : s'.tables = s.tables)
    (hgrants : s'.grants = (kind.request virtAddr, addr) :: s.grants) :
    Confined root s t s' (t.setLeaf kind.destinationLevel (n * 512 + i) (kind.entry addr)) := by
  have htree : HoldsTree s'.mem root
      (t.setLeaf kind.destinationLevel (n * 512 + i) (kind.entry addr)) := by
    rw [hmem]
    exact h.setLeaf hnode hi hbelow (hkind.isLeafEntry addr)
  have hgrant : GrantedSince s s' (kind.request virtAddr) addr := ⟨[], [], hgrants⟩
  have hwalk : ∀ va < 2 ^ 48, slotNumber kind.destinationLevel va = n * 512 + i →
      walkPa s.mem root va = none ∧ walkPa s'.mem root va = some (addr + va % kind.unitSize) := by
    intro va hva hslot
    have hway : t.node kind.destinationLevel (slotNumber kind.destinationLevel va / 512) = some a := by
      rw [hslot, show (n * 512 + i) / 512 = n by omega, hnode]
    refine ⟨h.walkPa_of_empty hva hway (by rwa [hslot]) (by rwa [hslot]), ?_⟩
    · rw [htree.walkPa_of_leaf hva (by rw [hslot]; exact Radix.setLeaf_leaf_self),
        hkind.outputAddress_entry haligned haddr, hkind.unitSize]
  refine
    { tree := htree
      recorded := ⟨by rw [htables], by rw [hgrants]; exact List.suffix_cons _ _⟩
      kept := id
      added := ⟨[], htables, List.not_mem_nil, fun _ => .inl⟩
      mem := fun w hw => ?_
      walk := fun va hva => ?_
      served := fun request addr' hgrant' => ?_ }
  · rw [hmem, Function.update_of_ne]
    rintro rfl
    exact hw a ⟨_, n, hnode⟩ (inTable_slot hi)
  · by_cases hslot : slotNumber kind.destinationLevel va = n * 512 + i
    · obtain ⟨hnone, hpa⟩ := hwalk va hva hslot
      have hrest : va % kind.unitSize < kind.unitSize :=
        Nat.mod_lt _ (hkind.unitSize ▸ regionSize_pos _)
      refine .inr ⟨hnone, _, addr, _, hgrant, hpa, Nat.le_add_right _ _, ?_⟩
      rw [hkind.request_size]
      exact Nat.add_lt_add_left hrest addr
    · refine .inl (h.walkPa_congr htree hva fun l => Radix.setLeaf_leaf_of_ne ?_)
      rintro ⟨rfl, heq⟩
      exact hslot heq
  · obtain ⟨new, hnew, hin⟩ := grantedSince_iff.mp hgrant'
    have hone : new = [(kind.request virtAddr, addr)] := by
      rw [hgrants] at hnew
      exact (List.append_cancel_right (hnew : [(kind.request virtAddr, addr)] ++ s.grants = _)).symm
    rw [hone, List.mem_singleton] at hin
    obtain ⟨rfl, rfl⟩ := Prod.mk.inj hin
    obtain ⟨hnone, hpa⟩ := hwalk _ hspace (hkind.slotNumber_unit _)
    refine ⟨_, hspace, hnone, ?_⟩
    rw [hpa, Nat.mul_mod_left, Nat.add_zero]

/-- A slot that holds no table. -/
theorem remakeSlot_confined (hkind : kind.Regular) {fin s : Mmu A} {root n a i virtAddr : Nat} {t : MmuTree}
    (h : HoldsTree s.mem root t) (hnode : t.node kind.destinationLevel n = some a) (hi : i < 512)
    (hbelow : t.node (kind.destinationLevel + 1) (n * 512 + i) = none)
    (hspace : (n * 512 + i) * kind.unitSize < 2 ^ 48) (hans : Answers t s fin)
    (hfin : RecordedIn (s.remakeSlot kind (setKernelSpace a) i virtAddr) fin) :
    ∃ t', Confined root s t (s.remakeSlot kind (setKernelSpace a) i virtAddr) t' ∧ t'.node = t.node ∧
      Reshaped kind.destinationLevel (n * 512 + i) (n * 512 + i + 1) t t' := by
  have ha := h.address hnode
  have hread := read_eq ha s i
  have hreshaped : ∀ {e'}, Reshaped kind.destinationLevel (n * 512 + i) (n * 512 + i + 1) t
      (t.setLeaf kind.destinationLevel (n * 512 + i) e') := by
    intro e'
    refine ⟨fun _ hleaf => ?_, .inl⟩
    rcases Radix.setLeaf_leaf_eq_some hleaf with ⟨rfl, rfl, -⟩ | hleaf
    · exact .inr (.inr ⟨rfl, Nat.le_refl _, Nat.lt_succ_self _⟩)
    · exact .inl ⟨_, hleaf, rfl⟩
  cases hleaf : t.leaf kind.destinationLevel (n * 512 + i) with
  | some e =>
    have hentry := h.leaf_entry hleaf
    rw [h.word_of_leaf hnode hi hleaf] at hread
    have hne : e ≠ mmuEmptyEntry := by
      rintro rfl
      exact absurd hentry.valid (by decide)
    rw [remakeSlot, hread, if_neg hne]
    split
    · refine ⟨_, .overwrite h hnode hi hleaf (isLeafEntry_withMemoryType hentry kind.memoryType)
        (outputAddress_withMemoryType hentry kind.memoryType) ?_ rfl rfl, rfl, hreshaped⟩
      rw [mmuOverrideMemoryType, write_mem ha, hread]
    · exact ⟨t, .refl h, rfl, .refl _ _ _ t⟩
  | none =>
    rw [h.word_of_empty hnode hi hleaf hbelow] at hread
    simp only [remakeSlot, hread, mmuEmptyEntry, if_true] at hfin ⊢
    obtain ⟨addr, haddr⟩ : ∃ addr, (kind.getPhysSpace (kind.request virtAddr) s.heap).1 = addr := ⟨_, rfl⟩
    have hgrants : (s.storeUnit kind (setKernelSpace a) i virtAddr).grants =
        (kind.request virtAddr, addr) :: s.grants := by
      rw [← haddr]
      rfl
    have hgrant : GrantedSince s (s.storeUnit kind (setKernelSpace a) i virtAddr)
        (kind.request virtAddr) addr := ⟨[], [], hgrants⟩
    have hsound := hans.grants _ _ (hgrant.mono (.refl s) hfin)
    rw [hkind.request_size] at hsound
    refine ⟨_, .grant hkind h hnode hi hleaf hbelow hspace hsound.1 hsound.2 ?_ rfl hgrants, rfl, hreshaped⟩
    rw [← haddr]
    exact write_mem ha _ i _

/-! ## One unit -/

/-- Pages alone: no block and no table of pages is new. -/
theorem Reshaped.of_pages {lo hi lo' hi' : Nat} {t t' : MmuTree} (h : Reshaped 3 lo' hi' t t')
    (hnode : t'.node = t.node) (dest : Nat) : Reshaped dest lo hi t t' where
  leaf hl hleaf := (h.leaf hl hleaf).imp id (.imp id fun ⟨heq, _⟩ => absurd heq (Nat.ne_of_lt hl))
  table htable := .inl (hnode ▸ htable)

theorem fillRounds_confined {fin : Mmu A} {root n b count first : Nat} {c : Nat × Mmu A} {t : MmuTree}
    (h : HoldsTree c.2.mem root t) (hnode : t.node 3 n = some b) (hspace : n < 2 ^ 27)
    (hcount : first + count ≤ 512) (hans : Answers t c.2 fin)
    (hfin : RecordedIn (forRange (fillRound kind (setKernelSpace b)) count first c).2 fin) :
    ∃ t', Confined root c.2 t (forRange (fillRound kind (setKernelSpace b)) count first c).2 t' ∧
      t'.node = t.node ∧ Reshaped 3 (n * 512) (n * 512 + 512) t t' := by
  induction count generalizing first c t with
  | zero => exact ⟨t, .refl h, rfl, .refl _ _ _ t⟩
  | succ count ih =>
    have hi : first < 512 := by omega
    have hzero : c.2.read (setKernelSpace b) first % 4 = 0 → c.2.read (setKernelSpace b) first = 0 := by
      rcases read_page_cases h hnode hi with ⟨-, hread⟩ | ⟨e, -, htype, hread⟩
      · exact fun _ => hread
      · rw [hread]
        omega
    -- filling takes no tables, so any allocator will do
    have hrest : Steps ⟨fun heap _ _ => (0, heap), fun heap _ _ => heap⟩ kind.getPhysSpace
        (fillRound kind (setKernelSpace b) first c).2
        (forRange (fillRound kind (setKernelSpace b)) (count + 1) first c).2 :=
      Steps.forRange Prod.snd (fun l3Idx c => fillRound_steps _ l3Idx c) count (first + 1) _
    have hround : fillRound kind (setKernelSpace b) first c = _ := fillRound_eq hzero
    have hfin₁ := hrest.recordedIn.trans hfin
    rw [hround] at hfin₁
    have hunit : (n * 512 + first) * kind.asPages.unitSize < 2 ^ 48 := by
      rw [kind.asPages_unitSize]
      omega
    obtain ⟨t₁, hconfined₁, hnode₁, hreshaped₁⟩ := remakeSlot_confined kind.asPages_regular h hnode hi
      (h.node_four _) hunit hans hfin₁
    have hreshaped₁' : Reshaped 3 (n * 512) (n * 512 + 512) t t₁ := hreshaped₁.of_pages hnode₁ 3
    rw [forRange] at hfin ⊢
    rw [hround] at hfin ⊢
    obtain ⟨t₂, hconfined₂, hnode₂, hreshaped₂⟩ := ih hconfined₁.tree (by rw [hnode₁, hnode]) (by omega)
      (hconfined₁.answers hans hfin₁) hfin
    exact ⟨t₂, hconfined₁.trans hconfined₂, hnode₂.trans hnode₁, hreshaped₁'.trans hreshaped₂⟩

theorem fillSubtable_confined {fin s : Mmu A} {root n b virtAddr : Nat} {t : MmuTree}
    (h : HoldsTree s.mem root t) (hnode : t.node 3 n = some b) (hspace : n < 2 ^ 27)
    (hans : Answers t s fin)
    (hfin : RecordedIn (s.fillSubtable kind (setKernelSpace b) virtAddr) fin) :
    ∃ t', Confined root s t (s.fillSubtable kind (setKernelSpace b) virtAddr) t' ∧ t'.node = t.node ∧
      Reshaped 3 (n * 512) (n * 512 + 512) t t' := by
  rw [fillSubtable_eq, mmuNumberOfLevelEntries] at hfin ⊢
  exact fillRounds_confined (c := (virtAddr, s)) h hnode hspace (by decide) hans hfin

/-- A slot without a table below it is not read as that of a table. -/
theorem read_slot_type {s : Mmu A} {root n a i : Nat} {t : MmuTree} (h : HoldsTree s.mem root t) (hnode : t.node kind.destinationLevel n = some a) (hi : i < 512)
    (hbelow : t.node (kind.destinationLevel + 1) (n * 512 + i) = none)
    (hlevel : kind.destinationLevel ≠ 3) : s.read (setKernelSpace a) i % 4 ≠ 3 := by
  rw [read_eq (h.address hnode)]
  cases hleaf : t.leaf kind.destinationLevel (n * 512 + i) with
  | none =>
    rw [h.word_of_empty hnode hi hleaf hbelow]
    decide
  | some e =>
    rw [h.word_of_leaf hnode hi hleaf]
    rcases h.leaf_entry hleaf with ⟨-, he⟩ | ⟨hthree, -⟩
    · omega
    · exact absurd hthree hlevel

/-- One unit, where a table in its place means a table in the batch's first slot. -/
theorem mapUnit_confined (hkind : kind.Regular) {fin s : Mmu A} {root n a first i virtAddr : Nat}
    {t : MmuTree} (h : HoldsTree s.mem root t) (hnode : t.node kind.destinationLevel n = some a)
    (hfirst : first ≤ i) (hi : i < 512) (hspace : (n * 512 + i) * kind.unitSize < 2 ^ 48)
    (hstraight : kind.destinationLevel = 2 → t.node 3 (n * 512 + i) ≠ none →
      t.node 3 (n * 512 + first) ≠ none)
    (hans : Answers t s fin)
    (hfin : RecordedIn
      (s.mapUnit kind ⟨setKernelSpace a, first, kind.destinationLevel⟩ i virtAddr) fin) :
    ∃ t', Confined root s t
        (s.mapUnit kind ⟨setKernelSpace a, first, kind.destinationLevel⟩ i virtAddr) t' ∧
      t'.node = t.node ∧
      Reshaped kind.destinationLevel (n * 512 + i) (n * 512 + i + 1) t t' := by
  have hsmall : kind.destinationLevel = 2 → n * 512 + first < 2 ^ 27 := by
    intro hlevel
    rw [UnitKind.unitSize, hlevel, mmuSizeOfLevelRegion_two] at hspace
    have hunit : n * 512 + i < 2 ^ 27 := Nat.lt_of_mul_lt_mul_right (a := 2097152) hspace
    exact Nat.lt_of_le_of_lt (Nat.add_le_add_left hfirst _) hunit
  cases hbelow : t.node (kind.destinationLevel + 1) (n * 512 + i) with
  | none =>
    rw [mapUnit_of_slot hkind fun hlevel => read_slot_type h hnode hi hbelow hlevel] at hfin ⊢
    exact remakeSlot_confined hkind h hnode hi hbelow hspace hans hfin
  | some c =>
    have hdepth := h.depth hbelow
    have hlevel : kind.destinationLevel = 2 := by
      rcases hkind.level with hlevel | hlevel <;> omega
    rw [hlevel] at hbelow hnode hfin ⊢
    obtain ⟨b, hb⟩ := Option.ne_none_iff_exists'.mp
      (hstraight hlevel (by rw [hbelow]; exact Option.some_ne_none c))
    have hread : ∀ j, s.read (setKernelSpace a) j = s.mem (a / 8 + j) := read_eq (h.address hnode) s
    have hword := h.word_of_node hnode hi hbelow
    have hentry : s.read (setKernelSpace a) i % 4 = 3 := by
      rw [hread, hword]
      exact tableEntry_type _
    rw [mapUnit_of_subtable (by decide : 2 ≠ 3) hentry (h.subtableAddress hb)
      ((hread first).trans (h.word_of_node hnode (by omega) hb))] at hfin ⊢
    obtain ⟨t', hconfined, hnodes, hreshaped⟩ := fillSubtable_confined h hb (hsmall hlevel) hans hfin
    exact ⟨t', hconfined, hnodes, hreshaped.of_pages hnodes 2⟩

/-! ## One batch -/

theorem batch_confined (hkind : kind.Regular) {fin : Mmu A} {root n a first i count : Nat}
    {c : Nat × Mmu A} {t : MmuTree} (h : HoldsTree c.2.mem root t)
    (hnode : t.node kind.destinationLevel n = some a) (hfirst : first ≤ i) (hcount : i + count ≤ 512)
    (hspace : (n * 512 + i + count) * kind.unitSize ≤ 2 ^ 48)
    (hstraight : kind.destinationLevel = 2 → ∀ j, i ≤ j → j < i + count →
      t.node 3 (n * 512 + j) ≠ none → t.node 3 (n * 512 + first) ≠ none)
    (hans : Answers t c.2 fin)
    (hfin : RecordedIn (forRange (batchRound kind ⟨setKernelSpace a, first, kind.destinationLevel⟩)
      count i c).2 fin) :
    ∃ t', Confined root c.2 t (forRange (batchRound kind ⟨setKernelSpace a, first, kind.destinationLevel⟩)
        count i c).2 t' ∧ t'.node = t.node ∧
      Reshaped kind.destinationLevel (n * 512 + i) (n * 512 + i + count) t t' := by
  induction count generalizing i c t with
  | zero => exact ⟨t, .refl h, rfl, .refl _ _ _ t⟩
  | succ count ih =>
    have hrest := batch_recordedIn hkind ⟨setKernelSpace a, first, kind.destinationLevel⟩ count (i + 1)
      (batchRound kind ⟨setKernelSpace a, first, kind.destinationLevel⟩ i c)
    have hsize : 0 < kind.unitSize := hkind.unitSize ▸ regionSize_pos _
    have hunit : (n * 512 + i) * kind.unitSize < 2 ^ 48 := by
      refine Nat.lt_of_lt_of_le ?_ hspace
      exact Nat.mul_lt_mul_of_pos_right (by omega) hsize
    obtain ⟨t₁, hconfined₁, hnodes₁, hreshaped₁⟩ := mapUnit_confined hkind h hnode hfirst (by omega) hunit
      (fun hlevel => hstraight hlevel i (Nat.le_refl _) (by omega)) hans (hrest.trans hfin)
    rw [forRange] at hfin ⊢
    obtain ⟨t₂, hconfined₂, hnodes₂, hreshaped₂⟩ := ih hconfined₁.tree (by rw [hnodes₁, hnode]) (by omega)
      (by omega) (by rwa [show n * 512 + (i + 1) + count = n * 512 + i + (count + 1) by omega])
      (fun hlevel j hlo hhi => by rw [hnodes₁]; exact hstraight hlevel j (by omega) (by omega))
      (hconfined₁.answers hans (hrest.trans hfin)) hfin
    refine ⟨t₂, hconfined₁.trans hconfined₂, hnodes₂.trans hnodes₁, ?_⟩
    exact (hreshaped₁.mono (Nat.le_refl _) (by omega)).trans (hreshaped₂.mono (by omega) (by omega))

/-! ## A new table -/

/-- `fin` comes after `s`: links stay and the record goes on. -/
structure Precedes (s fin : Mmu A) : Prop where
  keeps : Keeps s fin
  recorded : RecordedIn s fin

theorem Precedes.refl (s : Mmu A) : Precedes s s := ⟨.refl s, .refl s⟩

theorem Precedes.trans {s s₁ s₂ : Mmu A} (h₁ : Precedes s s₁) (h₂ : Precedes s₁ s₂) : Precedes s s₂ :=
  ⟨h₁.keeps.trans h₂.keeps, h₁.recorded.trans h₂.recorded⟩

/-- A page that is taken before `fin` is new to the tree. -/
theorem Answers.newPage {fin s s₁ : Mmu A} {t : MmuTree} (h : Answers t s fin)
    (htables : s₁.tables = s.newPage pages :: s.tables) (hfin : RecordedIn s₁ fin) :
    IsSubtableAddress (s.newPage pages) ∧ ¬t.HasTable (s.newPage pages) := by
  obtain ⟨taken, htaken, -, hnew⟩ := h.tables
  obtain ⟨later, hlater⟩ := hfin.tables
  refine hnew _ ?_
  have hparts : taken = later ++ [s.newPage pages] := by
    rw [← hlater, htables, List.append_cons] at htaken
    exact (List.append_cancel_right htaken).symm
  rw [hparts]
  exact List.mem_append_right _ (List.mem_singleton_self _)

/-- A table at address 0 that is linked once is linked in the end. -/
theorem spoiled_of_null {fin s s₁ : Mmu A} {root level va : Nat} {t t₁ : MmuTree}
    (hans : Answers t s fin) (htree : HoldsTree s₁.mem root t₁) (htables : s₁.tables = null :: s.tables)
    (hnodes : ∀ l ≤ level, ∀ n, t₁.node l n = t.node l n) (hva : va < 2 ^ 48) (hlevel : level < 3)
    (hnull : t₁.node (level + 1) (slotNumber level va) = some null) (hfin : Precedes s₁ fin) :
    Spoiled root s fin := by
  obtain ⟨later, hlater⟩ := hfin.recorded.tables
  have htaken : fin.tables = (later ++ [null]) ++ s.tables := by
    rw [← hlater, htables, List.append_cons]
  have hstart : t₁.node 0 (slotNumber 0 va / 512) = some root := by
    rw [htree.root_node, if_pos]
    simp only [slotNumber, regionSize]
    omega
  have hend : t₁.node (0 + (level + 1)) (slotNumber (0 + (level + 1)) va / 512) = some null := by
    rw [Nat.zero_add, slotNumber_path va level hlevel, hnull]
  refine ⟨⟨_, htaken, List.mem_append_right _ (List.mem_singleton_self _)⟩, va, hva, level + 1, hlevel,
    hfin.keeps.walkTable_eq htree hstart hend fun p hp => ?_⟩
  obtain ⟨taken, htaken', -, hnew⟩ := hans.tables
  obtain ⟨taken', htaken'', hin⟩ := hp
  have hparts : taken = taken' ++ [null] := by
    rw [htaken'', htables, List.append_cons] at htaken'
    exact (List.append_cancel_right htaken').symm
  obtain ⟨hpage, hfree⟩ := hnew p (by rw [hparts]; exact List.mem_append_left _ hin)
  refine ⟨hpage.table, fun l hl n hnode => hfree ⟨l, n, ?_⟩⟩
  rw [← hnodes l (by omega), hnode]

/-- With what is taken for it alone, the tree and its new table. -/
theorem holds_newPage {s s' : Mmu A} {root : Nat} {t : MmuTree} (h : HoldsTree s.mem root t)
    (hpage : IsSubtableAddress (s.newPage pages)) (hfree : ¬t.HasTable (s.newPage pages))
    (htables : s'.tables = s.newPage pages :: s.tables) : Holds s' root s t := by
  refine ⟨h, [s.newPage pages], htables, List.nodup_singleton _, fun b hb => ?_⟩
  obtain rfl := List.mem_singleton.mp hb
  exact ⟨hpage, hfree⟩

section

variable {s : Mmu A} {root level n a i : Nat} {t : MmuTree} (h : HoldsTree s.mem root t)
  (hnode : t.node level n = some a) (hi : i < 512) (hpage : IsSubtableAddress (s.newPage pages))
  (hfree : ¬t.HasTable (s.newPage pages))

include h hnode hi hpage hfree

theorem linkTable_tree (hlevel : level < 3) (hleaf : t.leaf level (n * 512 + i) = none)
    (hbelow : t.node (level + 1) (n * 512 + i) = none) :
    HoldsTree (s.linkTable pages (setKernelSpace a) i level).mem root
      (t.addNode (level + 1) (n * 512 + i) (s.newPage pages)) ∧
    Grown s t (s.linkTable pages (setKernelSpace a) i level)
      (t.addNode (level + 1) (n * 512 + i) (s.newPage pages))
      (fun level' m => level' = level + 1 ∧ m = n * 512 + i) (fun _ _ _ => False) := by
  obtain ⟨h', hgrown⟩ := (holds_newPage h hpage hfree rfl).addNode hnode hi hlevel hleaf hbelow
    (List.suffix_rfl : _ <:+ (s.linkTable pages (setKernelSpace a) i level).tables)
  exact ⟨h'.tree, hgrown⟩

theorem splitState_tree {e : Nat} (hlevel : level = 1 ∨ level = 2)
    (hleaf : t.leaf level (n * 512 + i) = some e) :
    HoldsTree (splitState pages s a i level).mem root
      (t.splitLeaf 512 level (n * 512 + i) (s.newPage pages) (splitEntry level e)) :=
  ((holds_newPage h hpage hfree rfl).splitLeaf hnode hi hlevel hleaf
    (List.suffix_rfl : _ <:+ (splitState pages s a i level).tables)).tree

variable (hne : s.newPage pages ≠ null)

include hne

/-- A new table in an empty slot. -/
theorem Confined.linkTable (hlevel : level < 3) (hleaf : t.leaf level (n * 512 + i) = none)
    (hbelow : t.node (level + 1) (n * 512 + i) = none) :
    Confined root s t (s.linkTable pages (setKernelSpace a) i level)
      (t.addNode (level + 1) (n * 512 + i) (s.newPage pages)) := by
  obtain ⟨htree, hgrown⟩ := linkTable_tree h hnode hi hpage hfree hlevel hleaf hbelow
  exact
    { tree := htree
      recorded := ⟨List.suffix_cons _ _, List.suffix_rfl⟩
      kept := hgrown.node_old
      added := ⟨[s.newPage pages], rfl, fun hin => hne (List.mem_singleton.mp hin).symm, fun b hb =>
        ((hasTable_addNode hbelow).mp hb).imp id List.mem_singleton.mpr⟩
      mem := hgrown.mem
      walk := fun va hva => .inl (h.walkPa_congr htree hva fun _ => rfl)
      served := fun request addr hgrant => absurd hgrant (not_grantedSince rfl request addr) }

/-- A new table in place of a block below 2 GB. -/
theorem Confined.splitState {e : Nat} (hlevel : level = 1 ∨ level = 2)
    (hleaf : t.leaf level (n * 512 + i) = some e) (hlow : outputAddress level e < 2 ^ 31) :
    Confined root s t (Mmu.splitState pages s a i level)
      (t.splitLeaf 512 level (n * 512 + i) (s.newPage pages) (splitEntry level e)) := by
  have hbelow := h.wellFormed.leaf_end hleaf
  have hsplit := splitState_tree h hnode hi hpage hfree hlevel hleaf
  have hbase : mmuSplitBaseAddress e level = outputAddress level e := by
    rw [mmuSplitBaseAddress_eq hlevel (by omega), if_pos hlow]
  refine
    { tree := hsplit
      recorded := ⟨List.suffix_cons _ _, List.suffix_rfl⟩
      kept := fun hnode' => Radix.addNode_node_of_some hbelow hnode'
      added := ⟨[s.newPage pages], rfl, fun hin => hne (List.mem_singleton.mp hin).symm, fun b hb =>
        ((hasTable_addNode hbelow).mp hb).imp id List.mem_singleton.mpr⟩
      mem := fun w hw => ?_
      walk := fun va hva => .inl ?_
      served := fun request addr hgrant => absurd hgrant (not_grantedSince rfl request addr) }
  · have hout : ¬InTable (s.newPage pages) w := hw _ ⟨level + 1, _, Radix.addNode_node_self⟩
    have hslot : w ≠ a / 8 + i := by
      rintro rfl
      exact hw a ⟨level, _, Radix.addNode_node_of_some hbelow hnode⟩ (inTable_slot hi)
    exact (if_neg hout).trans (if_neg hslot)
  · have hpath := slotNumber_path va level (by omega)
    by_cases hslot : slotNumber level va = n * 512 + i
    · have hunit := translate_splitEntry hlevel hbase (outputAddress_mod hlevel) va
      rw [Nat.mod_eq_of_lt (Nat.lt_of_lt_of_le hlow (by decide))] at hunit
      have hpa : outputAddress (level + 1) (splitEntry level e (slotNumber (level + 1) va % 512)) +
          va % regionSize (level + 1) = outputAddress level e + va % regionSize level :=
        congrArg Translation.pa hunit
      have hleaf' : (t.splitLeaf 512 level (n * 512 + i) (s.newPage pages) (splitEntry level e)).leaf
          (level + 1) (slotNumber (level + 1) va) = some _ :=
        Radix.fillNode_leaf_of_mem (by rw [← hslot]; exact hpath)
      rw [h.walkPa_of_leaf hva (by rw [hslot, hleaf]), hsplit.walkPa_of_leaf hva hleaf', hpa]
    · refine h.walkPa_congr hsplit hva fun l => Radix.splitLeaf_leaf_of_ne ?_ ?_
      · rintro ⟨rfl, heq⟩
        exact hslot heq
      · rintro ⟨rfl, heq⟩
        exact hslot (hpath.symm.trans heq)

end

/-! ## Descents -/

/-- Blocks on the way of `va` down to level `dest` lie below 2 GB. -/
def LowOnWay (t : MmuTree) (va dest : Nat) : Prop :=
  ∀ l < dest, ∀ e, t.leaf l (slotNumber l va) = some e → outputAddress l e < 2 ^ 31

theorem LowOnWay.reshaped {t t' : MmuTree} {va dest level lo hi : Nat} (h : LowOnWay t va dest)
    (hreshaped : Reshaped level lo hi t t') (hdest : dest ≤ 3)
    (hout : level < dest → ¬(lo ≤ slotNumber level va ∧ slotNumber level va < hi)) :
    LowOnWay t' va dest := by
  intro l hl e hleaf
  rcases hreshaped.leaf (by omega) hleaf with ⟨e₀, hleaf₀, houtput⟩ | hlow | ⟨rfl, hin⟩
  · rw [houtput]
    exact h l hl e₀ hleaf₀
  · exact hlow
  · exact absurd hin (hout hl)

/-- The parts of a block of 1 GB below 2 GB lie below 2 GB. -/
theorem outputAddress_splitEntry_one {e k : Nat} (hk : k < 512) (hlow : outputAddress 1 e < 2 ^ 31) :
    outputAddress 2 (splitEntry 1 e k) < 2 ^ 31 := by
  have haligned : outputAddress 1 e % regionSize 1 = 0 := outputAddress_mod (.inl rfl)
  have hbase : mmuSplitBaseAddress e 1 = _ := mmuSplitBaseAddress_eq (.inl rfl) (by omega)
  rw [if_pos hlow] at hbase
  rw [splitEntry, hbase, if_pos rfl, mmuBlockEntryBits_two, mmuSizeOfLevelRegion_two]
  generalize outputAddress 1 e = base at haligned hlow
  simp only [outputAddress, regionSize, Nat.reduceMul, Nat.reduceSub, Nat.reducePow, u64] at haligned ⊢
  omega

section

variable {va dest lo hi : Nat} (hdest : dest ≤ 3) (hlo : lo ≤ slotNumber dest va)
  (hhi : slotNumber dest va < hi)

include hdest hlo hhi

theorem Reshaped.addNode {level b : Nat} (hlevel : level < dest) (t : MmuTree) :
    Reshaped dest lo hi t (t.addNode (level + 1) (slotNumber level va) b) := by
  refine ⟨fun _ hleaf => .inl ⟨_, hleaf, rfl⟩, fun {m} htable => ?_⟩
  by_cases hnew : 3 = level + 1 ∧ m = slotNumber level va
  · obtain ⟨hthree, rfl⟩ := hnew
    obtain rfl : dest = 3 := by omega
    obtain rfl : level = 2 := by omega
    have hpath : slotNumber 3 va / 512 = slotNumber 2 va := slotNumber_path va 2 (by decide)
    exact .inr ⟨rfl, by omega, by omega⟩
  · rw [Radix.addNode_node_of_ne hnew] at htable
    exact .inl htable

theorem Reshaped.splitLeaf {level b e : Nat} {t : MmuTree} (hlevel : level < dest)
    (hlevel' : level = 1 ∨ level = 2) (hlow : outputAddress level e < 2 ^ 31) :
    Reshaped dest lo hi t (t.splitLeaf 512 level (slotNumber level va) b (splitEntry level e)) := by
  refine ⟨fun {l m e'} hl hleaf => ?_, (Reshaped.addNode hdest hlo hhi hlevel t).table⟩
  rcases Radix.fillNode_leaf_eq_some hleaf with ⟨hl', -, rfl⟩ | hleaf
  · obtain rfl : level = 1 := by omega
    obtain rfl : l = 2 := hl'
    exact .inr (.inl (outputAddress_splitEntry_one (Nat.mod_lt _ (by decide)) hlow))
  · exact .inl ⟨e', (Radix.removeLeaf_leaf_eq_some hleaf).2, rfl⟩

end

/-- One round: a table is followed, added, or put in place of a block. -/
theorem descend_confined {fin : Mmu A} {root level va dest lo hi : Nat} {d : Descent A} {t : MmuTree}
    (h : HoldsTree d.mmu.mem root t) (hd : DescentAt t d level va) (hva : va < 2 ^ 48)
    (hlevel : level < dest) (hdest : dest ≤ 3) (hlow : LowOnWay t va dest)
    (hlo : lo ≤ slotNumber dest va) (hhi : slotNumber dest va < hi) (hans : Answers t d.mmu fin)
    (hfin : Precedes (descend pages level d).mmu fin) :
    (∃ t', Confined root d.mmu t (descend pages level d).mmu t' ∧ Reshaped dest lo hi t t' ∧
      DescentAt t' (descend pages level d) (level + 1) va) ∨ Spoiled root d.mmu fin := by
  obtain ⟨table, address, s⟩ := d
  obtain ⟨a, hnode, rfl⟩ := hd.table
  have ha := h.address hnode
  have hi : slotNumber level va % 512 < 512 := Nat.mod_lt _ (by decide)
  have hnumber : slotNumber level va / 512 * 512 + slotNumber level va % 512 = slotNumber level va :=
    Nat.div_add_mod' _ _
  have hslot : address / regionSize level = slotNumber level va % 512 := hd.slot
  have hread : s.read (setKernelSpace a) (address / regionSize level) =
      s.mem (a / 8 + slotNumber level va % 512) := by
    rw [read_eq ha, hslot]
  have hthree : level < 3 := by omega
  cases hleaf : t.leaf level (slotNumber level va) with
  | none =>
    cases hbelow : t.node (level + 1) (slotNumber level va) with
    | some b =>
      have hword := h.word_of_node hnode hi (by rw [hnumber, hbelow])
      rw [descend_of_table hthree (hslot ▸ hi) (h.subtableAddress hbelow) (hread.trans hword)]
      exact .inl ⟨t, .refl h, .refl _ _ _ t, hd.below hthree hbelow rfl rfl⟩
    | none =>
      have hword := h.word_of_empty hnode hi (by rw [hnumber, hleaf]) (by rw [hnumber, hbelow])
      rw [descend_of_empty hthree (hslot ▸ hi) (hread.trans hword)] at hfin ⊢
      rw [hslot] at hfin ⊢
      dsimp only at hfin ⊢
      have htables : (s.linkTable pages (setKernelSpace a) (slotNumber level va % 512) level).tables =
          s.newPage pages :: s.tables := rfl
      obtain ⟨hpage, hfree⟩ := hans.newPage htables hfin.recorded
      by_cases hne : s.newPage pages = null
      · have htree := (linkTable_tree h hnode hi hpage hfree hthree (by rw [hnumber, hleaf])
          (by rw [hnumber, hbelow])).1
        rw [hnumber] at htree
        refine .inr (spoiled_of_null hans htree (congrArg (· :: s.tables) hne) (fun l hl n => ?_) hva hthree
          (Radix.addNode_node_self.trans (congrArg some hne)) hfin)
        exact Radix.addNode_node_of_ne (by omega)
      · have hconfined := Confined.linkTable h hnode hi hpage hfree hne hthree (by rw [hnumber, hleaf])
          (by rw [hnumber, hbelow])
        rw [hnumber] at hconfined
        exact .inl ⟨_, hconfined, .addNode hdest hlo hhi hlevel t,
          hd.below hthree Radix.addNode_node_self rfl rfl⟩
  | some e =>
    have hbelow := h.wellFormed.leaf_end hleaf
    obtain ⟨hlevel', htype⟩ : (level = 1 ∨ level = 2) ∧ e % 4 = 1 :=
      (h.leaf_entry hleaf).resolve_right fun hpage => absurd hpage.1 (Nat.ne_of_lt hthree)
    have hword := h.word_of_leaf hnode hi (by rw [hnumber, hleaf])
    have htables := splitBlockEntry_tables pages s (setKernelSpace a) (slotNumber level va % 512) level
    rw [createTable_tables] at htables
    rw [descend_of_block hthree (hslot ▸ hi) (hread.trans hword) htype, hslot] at hfin ⊢
    dsimp only at hfin ⊢
    obtain ⟨hpage, hfree⟩ := hans.newPage htables hfin.recorded
    have hapart : s.newPage pages ≠ a := fun heq => hfree ⟨level, _, hnode.trans (congrArg some heq.symm)⟩
    rw [splitBlockEntry_eq ha hpage.table hapart hi hlevel'] at hfin ⊢
    by_cases hne : s.newPage pages = null
    · have htree := splitState_tree h hnode hi hpage hfree hlevel' (by rw [hnumber, hleaf])
      rw [hnumber] at htree
      refine .inr (spoiled_of_null hans htree (congrArg (· :: s.tables) hne) (fun l hl n => ?_) hva hthree
        (Radix.addNode_node_self.trans (congrArg some hne)) hfin)
      exact Radix.addNode_node_of_ne (by omega)
    · have hconfined := Confined.splitState h hnode hi hpage hfree hne hlevel' (by rw [hnumber, hleaf])
        (hlow level hlevel e hleaf)
      rw [hnumber] at hconfined
      exact .inl ⟨_, hconfined, .splitLeaf hdest hlo hhi hlevel hlevel' (hlow level hlevel e hleaf),
        hd.below hthree Radix.addNode_node_self rfl rfl⟩

theorem descent_confined {fin : Mmu A} {root n level va dest lo hi : Nat} {d : Descent A} {t : MmuTree}
    (h : HoldsTree d.mmu.mem root t) (hd : DescentAt t d level va) (hva : va < 2 ^ 48)
    (hlevel : level + n ≤ dest) (hdest : dest ≤ 3) (hlow : LowOnWay t va dest)
    (hlo : lo ≤ slotNumber dest va) (hhi : slotNumber dest va < hi) (hans : Answers t d.mmu fin)
    (hfin : Precedes (forRange (descend pages) n level d).mmu fin) :
    (∃ t', Confined root d.mmu t (forRange (descend pages) n level d).mmu t' ∧
      Reshaped dest lo hi t t' ∧ DescentAt t' (forRange (descend pages) n level d) (level + n) va) ∨
    Spoiled root d.mmu fin := by
  induction n generalizing level d t with
  | zero => exact .inl ⟨t, .refl h, .refl _ _ _ t, hd⟩
  | succ n ih =>
    have hrest : Precedes (descend pages level d).mmu fin :=
      Precedes.trans ⟨Keeps.forRange Descent.mmu Keeps.descend n (level + 1) (descend pages level d),
        descent_recordedIn pages n (level + 1) (descend pages level d)⟩ hfin
    rcases descend_confined h hd hva (by omega) hdest hlow hlo hhi hans hrest with
      ⟨t₁, hconfined₁, hreshaped₁, hd₁⟩ | hspoiled
    · have hlow₁ := hlow.reshaped hreshaped₁ hdest fun hlt => absurd hlt (Nat.lt_irrefl dest)
      rcases ih hconfined₁.tree hd₁ (by omega) hlow₁ (hconfined₁.answers hans hrest.recorded) hfin with
        ⟨t₂, hconfined₂, hreshaped₂, hd₂⟩ | hspoiled
      · rw [Nat.add_right_comm] at hd₂
        exact .inl ⟨t₂, hconfined₁.trans hconfined₂, hreshaped₁.trans hreshaped₂, hd₂⟩
      · exact .inr (hspoiled.mono hconfined₁.recorded)
    · exact .inr hspoiled

/-- `mmu_traverse_and_alloc_tables` from the root. -/
theorem traverse_confined {fin s : Mmu A} {root va dest lo hi : Nat} {t : MmuTree}
    (h : HoldsTree s.mem root t) (hva : va < 2 ^ 48) (hdest : dest ≤ 3) (hlow : LowOnWay t va dest)
    (hlo : lo ≤ slotNumber dest va) (hhi : slotNumber dest va < hi) (hans : Answers t s fin)
    (hfin : Precedes (s.mmuTraverseAndAllocTables pages (setKernelSpace root) 0 va dest).2 fin) :
    (∃ t' a, Confined root s t (s.mmuTraverseAndAllocTables pages (setKernelSpace root) 0 va dest).2 t' ∧
      Reshaped dest lo hi t t' ∧ t'.node dest (slotNumber dest va / 512) = some a ∧
      (s.mmuTraverseAndAllocTables pages (setKernelSpace root) 0 va dest).1 =
        ⟨setKernelSpace a, slotNumber dest va % 512, dest⟩) ∨ Spoiled root s fin := by
  have hroot : t.node 0 0 = some root := by rw [h.root_node, if_pos rfl]
  simp only [mmuTraverseAndAllocTables, Nat.zero_max, Nat.sub_zero] at hfin ⊢
  rcases descent_confined (d := ⟨setKernelSpace root, va, s⟩) h (.start hroot hva s) hva
    (Nat.le_of_eq (Nat.zero_add dest)) hdest hlow hlo hhi hans hfin with
    ⟨t', hconfined, hreshaped, hd⟩ | hspoiled
  · rw [Nat.zero_add] at hd
    obtain ⟨a, hnode, htable⟩ := hd.table
    have hi : slotNumber dest va % 512 < 512 := Nat.mod_lt _ (by decide)
    refine .inl ⟨t', a, hconfined, hreshaped, hnode, ?_⟩
    rw [htable, regionSize_eq hdest, hd.slot, u32_of_lt (by omega)]
  · exact .inr hspoiled

/-! ## The loop over batches -/

theorem LowOnWay.congr {t : MmuTree} {va va' dest : Nat} (h : LowOnWay t va dest) (hdest : dest ≤ 3)
    (heq : slotNumber dest va' = slotNumber dest va) : LowOnWay t va' dest := by
  intro l hl e hleaf
  refine h l hl e ?_
  rwa [Radix.Path.eq_of_le (slotNumber_path va) (slotNumber_path va') (Nat.le_of_lt hl) hdest heq.symm]

/-- Blocks leave the tables of pages as they are. -/
theorem Reshaped.node_three {s s' : Mmu A} {root lo hi : Nat} {t t' : MmuTree}
    (h : Reshaped 2 lo hi t t') (hconfined : Confined root s t s' t') (n : Nat) :
    t'.node 3 n = t.node 3 n := by
  cases hold : t.node 3 n with
  | some c => exact hconfined.kept hold
  | none =>
    cases hnew : t'.node 3 n with
    | none => rfl
    | some c =>
      rcases h.table (by rw [hnew]; exact Option.some_ne_none c) with htable | ⟨htwo, -⟩
      · exact absurd hold htable
      · exact absurd htwo (by decide)

/-- The units of a batch are those of one table. -/
theorem Straight.batch {t : MmuTree} {m hi j k : Nat} (h : Straight t m hi) (hk : m % 512 + k ≤ 512)
    (hhi : m + k ≤ hi) (hlo : m ≤ j) (hj : j < m + k) (htable : t.node 3 j ≠ none) :
    t.node 3 m ≠ none := by
  rcases Nat.eq_or_lt_of_le hlo with rfl | hlt
  · exact htable
  · have hfirst : ¬FirstUnit m j := by
      unfold FirstUnit
      omega
    have hmax : max m (j / 512 * 512) = m := by omega
    have hslot := h j hlo (by omega) htable hfirst
    rwa [hmax] at hslot

section Loop

variable (hkind : kind.Regular) {fin : Mmu A} {root address m : Nat}

include hkind

theorem mapRound_confined {c : MapCursor A} {t : MmuTree} (h : HoldsTree c.mmu.mem root t)
    (hpos : 0 < c.count) (hm : slotNumber kind.destinationLevel (address + c.offset) = m)
    (hspace : address + c.offset + c.count * kind.unitSize ≤ 2 ^ 48)
    (hlow : LowOnWay t (address + c.offset) kind.destinationLevel)
    (hstraight : kind.destinationLevel = 2 → Straight t m (m + c.count)) (hans : Answers t c.mmu fin)
    (hfin : Precedes (mapRound pages kind (setKernelSpace root) 0 address c).mmu fin) :
    ∃ k, 0 < k ∧ k ≤ c.count ∧ ((m + k) % 512 = 0 ∨ k = c.count) ∧
      ((mapRound pages kind (setKernelSpace root) 0 address c).count = c.count - k ∧
        (mapRound pages kind (setKernelSpace root) 0 address c).offset = c.offset + k * kind.unitSize ∧
        (∃ t', Confined root c.mmu t (mapRound pages kind (setKernelSpace root) 0 address c).mmu t' ∧
          Reshaped kind.destinationLevel m (m + k) t t' ∧
          (kind.destinationLevel = 3 → ∀ j, m ≤ j → j < m + k → t'.node 3 (j / 512) ≠ none)) ∨
        Spoiled root c.mmu fin) := by
  have hsize : 0 < kind.unitSize := hkind.unitSize ▸ regionSize_pos _
  have hrange : 0 < c.count * kind.unitSize := Nat.mul_pos hpos hsize
  have hva : address + c.offset < 2 ^ 48 := by omega
  have hvirt : u64 (address + c.offset) = address + c.offset := u64_of_lt (by omega)
  obtain ⟨k, hk⟩ : ∃ k, k = min (512 - m % 512) c.count := ⟨_, rfl⟩
  have hk' : 0 < k ∧ k ≤ c.count ∧ m % 512 + k ≤ 512 := by omega
  have hle : k * kind.unitSize ≤ c.count * kind.unitSize := Nat.mul_le_mul_right _ hk'.2.1
  have hunits : (m + k) * kind.unitSize ≤ 2 ^ 48 := by
    have hfloor : m * kind.unitSize ≤ address + c.offset := by
      rw [← hm, slotNumber, ← hkind.unitSize]
      exact Nat.div_mul_le_self _ _
    rw [Nat.add_mul]
    omega
  have hend : slotNumber kind.destinationLevel (address + c.offset) < m + k := by
    rw [hm]
    exact Nat.lt_add_of_pos_right hk'.1
  refine ⟨k, hk'.1, hk'.2.1, by omega, ?_⟩
  have htraverse := fun hfin : Precedes (c.mmu.mmuTraverseAndAllocTables pages (setKernelSpace root) 0
      (address + c.offset) kind.destinationLevel).2 fin =>
    traverse_confined h hva hkind.le hlow (Nat.le_of_eq hm.symm) hend hans hfin
  simp only [mapRound, hvirt] at hfin ⊢
  generalize c.mmu.mmuTraverseAndAllocTables pages (setKernelSpace root) 0 (address + c.offset)
    kind.destinationLevel = r at htraverse hfin ⊢
  obtain ⟨tableData, s₁⟩ := r
  have hbatch : ∀ unitCount, Precedes s₁ (s₁.mapBatch kind tableData unitCount (address + c.offset)) :=
    fun unitCount => by
      have hsteps : Steps pages kind.getPhysSpace s₁
          (s₁.mapBatch kind tableData unitCount (address + c.offset)) := mapBatch_steps hkind _ _ _ _
      exact ⟨.mapBatch hkind _ _ _ _, hsteps.recordedIn⟩
  rcases htraverse ((hbatch _).trans hfin) with ⟨t₁, a, hconfined₁, hreshaped₁, hnode, rfl⟩ | hspoiled
  · rw [hm] at hnode hfin hbatch ⊢
    have hcount : u32 (min (sub64 (mmuNumberOfLevelEntries kind.destinationLevel) (m % 512)) c.count) =
        k := by
      rw [mmuNumberOfLevelEntries, sub64_of_le (by omega), u32_of_lt (by omega), hk]
    simp only [hcount] at hfin ⊢
    have hfirst : m / 512 * 512 + m % 512 = m := Nat.div_add_mod' m 512
    have hstraight₁ : kind.destinationLevel = 2 → ∀ j, m % 512 ≤ j → j < m % 512 + k →
        t₁.node 3 (m / 512 * 512 + j) ≠ none → t₁.node 3 (m / 512 * 512 + m % 512) ≠ none := by
      intro hlevel j hlo hhi
      rw [hlevel] at hreshaped₁
      rw [hreshaped₁.node_three hconfined₁, hreshaped₁.node_three hconfined₁, hfirst]
      exact (hstraight hlevel).batch hk'.2.2 (by omega) (by omega) (by omega)
    obtain ⟨t₂, hconfined₂, hnodes₂, hreshaped₂⟩ := batch_confined hkind (c := (address + c.offset, s₁))
      hconfined₁.tree hnode (Nat.le_refl _) hk'.2.2 (by rwa [hfirst]) hstraight₁
      (hconfined₁.answers hans ((hbatch k).trans hfin).recorded) hfin.recorded
    rw [hfirst] at hreshaped₂
    refine .inl ⟨sub32_of_le hk'.2.1, u64_of_lt (by omega), t₂, hconfined₁.trans hconfined₂,
      hreshaped₁.trans hreshaped₂, fun hlevel j hlo hhi => ?_⟩
    rw [hnodes₂, show j / 512 = m / 512 by omega, ← hlevel, hnode]
    exact Option.some_ne_none a
  · exact .inr hspoiled

theorem mapLoop_confined {c : MapCursor A} {t : MmuTree} {n : Nat} (h : HoldsTree c.mmu.mem root t)
    (hn : c.count ≤ n) (hm : slotNumber kind.destinationLevel (address + c.offset) = m)
    (hspace : address + c.offset + c.count * kind.unitSize ≤ 2 ^ 48)
    (hlow : ∀ j, m ≤ j → j < m + c.count → LowOnWay t (j * kind.unitSize) kind.destinationLevel)
    (hstraight : kind.destinationLevel = 2 → Straight t m (m + c.count)) (hans : Answers t c.mmu fin)
    (hfin : Precedes (loopWhile MapCursor.active
      (mapRound pages kind (setKernelSpace root) 0 address) n c).mmu fin) :
    (∃ t', Confined root c.mmu t (loopWhile MapCursor.active
        (mapRound pages kind (setKernelSpace root) 0 address) n c).mmu t' ∧
      Reshaped kind.destinationLevel m (m + c.count) t t' ∧
      (kind.destinationLevel = 3 → ∀ j, m ≤ j → j < m + c.count → t'.node 3 (j / 512) ≠ none)) ∨
    Spoiled root c.mmu fin := by
  induction n generalizing c m t with
  | zero =>
    obtain hzero : c.count = 0 := Nat.le_zero.mp hn
    rw [hzero]
    exact .inl ⟨t, .refl h, .refl _ _ _ t, fun _ j hlo hhi => by omega⟩
  | succ n ih =>
    by_cases hpos : 0 < c.count
    · have htrue : c.active = true := decide_eq_true hpos
      rw [Loop.loopWhile_succ_of_true _ htrue] at hfin ⊢
      have hsteps : Steps pages kind.getPhysSpace _ _ := mapLoop_steps hkind (setKernelSpace root) 0
        address n (mapRound pages kind (setKernelSpace root) 0 address c)
      have hround : Precedes (mapRound pages kind (setKernelSpace root) 0 address c).mmu fin :=
        Precedes.trans ⟨.mapLoop hkind _ _ _ _ _, hsteps.recordedIn⟩ hfin
      have hslot : slotNumber kind.destinationLevel (address + c.offset) =
          slotNumber kind.destinationLevel (m * kind.unitSize) := by
        rw [hm, hkind.slotNumber_unit]
      obtain ⟨k, hk, hkc, hend, houtcome⟩ := mapRound_confined hkind h hpos hm hspace
        ((hlow m (Nat.le_refl _) (by omega)).congr hkind.le hslot) hstraight hans hround
      rcases houtcome with ⟨hcount₁, hoffset₁, t₁, hconfined₁, hreshaped₁, hmade₁⟩ | hspoiled
      · have hsum : m + k + (c.count - k) = m + c.count := by omega
        have hunits : c.count * kind.unitSize = k * kind.unitSize + (c.count - k) * kind.unitSize := by
          rw [← Nat.add_mul, Nat.add_sub_cancel' hkc]
        have hm₁ : slotNumber kind.destinationLevel (address +
            (mapRound pages kind (setKernelSpace root) 0 address c).offset) = m + k := by
          rw [hoffset₁, ← Nat.add_assoc, slotNumber, hkind.unitSize,
            Nat.add_mul_div_right _ _ (regionSize_pos _), ← slotNumber, hm]
        have hstraight₁ : kind.destinationLevel = 2 → Straight t₁ (m + k) (m + c.count) := by
          intro hlevel
          rw [hlevel] at hreshaped₁
          exact ((straight_split (hreshaped₁.node_three hconfined₁) (by omega) (by omega) (by omega)).mp
            (hstraight hlevel)).2
        have hnext := ih (m := m + k) hconfined₁.tree (by omega) hm₁ (by rw [hcount₁, hoffset₁]; omega)
          (fun j hlo hhi => (hlow j (by omega) (by omega)).reshaped hreshaped₁ hkind.le
            fun hlt => absurd hlt (Nat.lt_irrefl _)) (by rwa [hcount₁, hsum])
          (hconfined₁.answers hans hround.recorded) hfin
        rw [hcount₁, hsum] at hnext
        rcases hnext with ⟨t₂, hconfined₂, hreshaped₂, hmade₂⟩ | hspoiled
        · refine .inl ⟨t₂, hconfined₁.trans hconfined₂, (hreshaped₁.mono (Nat.le_refl _) (by omega)).trans
            (hreshaped₂.mono (by omega) (Nat.le_refl _)), fun hlevel j hlo hhi => ?_⟩
          rcases Nat.lt_or_ge j (m + k) with hlt | hge
          · obtain ⟨b, hb⟩ := Option.ne_none_iff_exists'.mp (hmade₁ hlevel j hlo hlt)
            rw [hconfined₂.kept hb]
            exact Option.some_ne_none b
          · exact hmade₂ hlevel j hge hhi
        · exact .inr (hspoiled.mono hconfined₁.recorded)
      · exact .inr hspoiled
    · have hfalse : c.active = false := decide_eq_false hpos
      have hzero : c.count = 0 := by omega
      rw [Loop.loopWhile_of_false _ hfalse, hzero]
      exact .inl ⟨t, .refl h, .refl _ _ _ t, fun _ j hlo hhi => by omega⟩

end Loop

end Mmu
end PiVOS
