-- SUMMARY: The descent of `mmu_traverse_and_alloc_tables` over any tree, with splits.
import PiVOS.Memory.Mmu.Insert
import PiVOS.Memory.Mmu.Split

/-!
# Descending over blocks

A descent goes to the table of its destination whatever stands in its way: it
follows tables, adds them in empty slots, and puts them in place of blocks. The
leaves of every address outside the blocks it splits stay, and a second descent
finds the way made.
-/

namespace PiVOS

/-! ## Links -/

namespace MmuTree

/-- The word `w` is a slot of a table and links the table at `b`. -/
def LinkedAt (t : MmuTree) (mem : Nat → Nat) (b w : Nat) : Prop :=
  ∃ level n a i, level < 3 ∧ t.node level n = some a ∧ i < 512 ∧ w = a / 8 + i ∧
    mem w = mmuTableEntryBits (setKernelSpace b)

/-- `va'` lies in none of the blocks on the way of `va` down to level `dest`. -/
def OutsideSplit (t : MmuTree) (va dest va' : Nat) : Prop :=
  ∀ l < dest, t.leaf l (slotNumber l va) ≠ none → slotNumber l va' ≠ slotNumber l va

end MmuTree

open MmuTree

namespace HoldsTree

variable {mem : Nat → Nat} {root : Nat} {t : MmuTree}

/-- Every table but the root has one link. -/
theorem existsUnique_link (h : HoldsTree mem root t) {level m b : Nat}
    (hb : t.node (level + 1) m = some b) : ∃! w, t.LinkedAt mem b w := by
  obtain ⟨a, ha⟩ := h.wellFormed.parent hb
  have hi : m % 512 < 512 := Nat.mod_lt _ (by decide)
  have hm : m / 512 * 512 + m % 512 = m := Nat.div_add_mod' _ _
  have hlink := h.word_of_node ha hi (by rw [hm, hb])
  refine ⟨a / 8 + m % 512, ⟨level, _, a, _, h.depth hb, ha, hi, rfl, hlink⟩, ?_⟩
  rintro w ⟨level', n', a', i', hlevel', ha', hi', rfl, hlink'⟩
  have htype := tableEntry_type (setKernelSpace b)
  cases hleaf : t.leaf level' (n' * 512 + i') with
  | some e =>
    rw [h.word_of_leaf ha' hi' hleaf] at hlink'
    rcases h.leaf_entry hleaf with ⟨-, he⟩ | ⟨rfl, -⟩
    · rw [hlink'] at he
      omega
    · exact absurd hlevel' (by decide)
  | none =>
    cases hbelow : t.node (level' + 1) (n' * 512 + i') with
    | some b' =>
      rw [h.word_of_node ha' hi' hbelow] at hlink'
      have hnext := congrArg nextTable hlink'
      rw [nextTable_tableEntry (h.address hbelow), nextTable_tableEntry (h.address hb)] at hnext
      obtain ⟨hlevel, hnumber⟩ := h.apart (hnext ▸ hbelow) hb
      obtain rfl := Nat.succ.inj hlevel
      obtain ⟨rfl, rfl⟩ : n' = m / 512 ∧ i' = m % 512 := by omega
      rw [Option.some.inj (ha'.symm.trans ha)]
    | none =>
      rw [h.word_of_empty ha' hi' hleaf hbelow] at hlink'
      omega

/-- The descent for an address goes through the tables on its path. -/
theorem walkTable_eq (h : HoldsTree mem root t) {va : Nat} {levels level a b : Nat}
    (hnode : t.node level (slotNumber level va / 512) = some a)
    (hend : t.node (level + levels) (slotNumber (level + levels) va / 512) = some b) :
    walkTable mem levels level a va = some b := by
  induction levels generalizing level a with
  | zero => exact hnode.symm.trans hend
  | succ levels ih =>
    have hi : slotNumber level va % 512 < 512 := Nat.mod_lt _ (by decide)
    have hslot : slotNumber level va / 512 * 512 + slotNumber level va % 512 = slotNumber level va :=
      Nat.div_add_mod' _ _
    have hdepth := h.depth hend
    have hpath : slotNumber (level + (levels + 1)) va / 512 = slotNumber (level + levels) va :=
      slotNumber_path va (level + levels) (by omega)
    have hlast : t.node (level + levels + 1) (slotNumber (level + levels) va) = some b := hpath ▸ hend
    obtain ⟨c, hc⟩ := h.wellFormed.node_above (slotNumber_path va) (by omega) hlast
      (Nat.le_add_right level levels)
    have htype := tableEntry_type (setKernelSpace c)
    have hentry : mmuTableEntryBits (setKernelSpace c) % 2 = 1 ∧
        mmuTableEntryBits (setKernelSpace c) / 2 % 2 = 1 := by omega
    simp only [walkTable, h.word_of_node hnode hi (by rw [hslot, hc]), hentry, and_self, if_true,
      nextTable_tableEntry (h.address hc)]
    refine ih (by rw [slotNumber_path va level (by omega), hc]) ?_
    rwa [Nat.add_right_comm]

/-- On the levels above a table on the path there are no leaves. -/
theorem leaf_eq_none_above (h : HoldsTree mem root t) {va level a : Nat}
    (hnode : t.node level (slotNumber level va / 512) = some a) {l : Nat} (hl : l < level) :
    t.leaf l (slotNumber l va) = none := by
  obtain ⟨level, rfl⟩ := Nat.exists_eq_succ_of_ne_zero (Nat.ne_of_gt (Nat.zero_lt_of_lt hl))
  have hdepth := h.depth hnode
  rw [slotNumber_path va level (by omega)] at hnode
  obtain ⟨b, hb⟩ := h.wellFormed.node_above (slotNumber_path va) (by omega) hnode
    (Nat.le_of_lt_succ hl)
  cases hleaf : t.leaf l (slotNumber l va) with
  | none => rfl
  | some e =>
    rw [h.wellFormed.leaf_end hleaf] at hb
    cases hb

end HoldsTree

namespace Mmu

variable {A : Type} {pages : PageHeap A}

/-! ## One round -/

/-- From `s` and `t` to `s'` and `t'` a descent for `va` to level `dest` added tables;
addresses outside the blocks it split have the leaves they had. No assertion failed. -/
structure Descended (s : Mmu A) (t : MmuTree) (s' : Mmu A) (t' : MmuTree) (va dest : Nat) : Prop where
  trapped : s'.trapped = s.trapped
  kept : ∀ {level n a}, t.node level n = some a → t'.node level n = some a
  level_le : ∀ {level n a}, t'.node level n = some a → t.node level n = some a ∨ level ≤ dest
  added : ∃ new, s'.tables = new ++ s.tables ∧ ∀ a, t'.HasTable a ↔ t.HasTable a ∨ a ∈ new
  leaf : ∀ va', t.OutsideSplit va dest va' → ∀ l, t'.leaf l (slotNumber l va') = t.leaf l (slotNumber l va')
  mem : ∀ w, (∀ a, t'.HasTable a → ¬InTable a w) → s'.mem w = s.mem w

theorem Descended.refl (s : Mmu A) (t : MmuTree) (va dest : Nat) : Descended s t s t va dest where
  trapped := rfl
  kept := id
  level_le := .inl
  added := ⟨[], rfl, fun a => by simp only [List.not_mem_nil, or_false]⟩
  leaf _ _ _ := rfl
  mem _ _ := rfl

/-- A descent without blocks on its way changes no leaf. -/
theorem Descended.leaf_eq {s s' : Mmu A} {t t' : MmuTree} {va dest : Nat}
    (h : Descended s t s' t' va dest) (hnone : ∀ l < dest, t.leaf l (slotNumber l va) = none)
    (l x : Nat) : t'.leaf l x = t.leaf l x := by
  have hslot : slotNumber l (x * regionSize l) = x := Nat.mul_div_cancel _ (regionSize_pos l)
  have hleaf := h.leaf (x * regionSize l) (fun l hl hne => absurd (hnone l hl) hne) l
  rwa [hslot] at hleaf

/-- Nor does it change what is below its destination. -/
theorem Descended.node_eq {s s' : Mmu A} {t t' : MmuTree} {va dest level : Nat}
    (h : Descended s t s' t' va dest) (hlevel : dest < level) (n : Nat) :
    t'.node level n = t.node level n := by
  refine Option.ext fun a => ⟨fun hnode => ?_, fun hnode => h.kept hnode⟩
  exact (h.level_le hnode).resolve_right (Nat.not_le.mpr hlevel)

/-- A descent by one level and the one from there on. -/
theorem Descended.trans {s s₁ s₂ : Mmu A} {root va level dest a a₁ : Nat} {t t₁ t₂ : MmuTree}
    (htree : HoldsTree s.mem root t) (hnode : t.node level (slotNumber level va / 512) = some a)
    (h₁ : Descended s t s₁ t₁ va (level + 1)) (htree₁ : HoldsTree s₁.mem root t₁)
    (hnode₁ : t₁.node (level + 1) (slotNumber (level + 1) va / 512) = some a₁)
    (h₂ : Descended s₁ t₁ s₂ t₂ va dest) (hlevel : level < dest) (hdest : dest ≤ 3) :
    Descended s t s₂ t₂ va dest where
  trapped := h₂.trapped.trans h₁.trapped
  kept h := h₂.kept (h₁.kept h)
  level_le h := (h₂.level_le h).elim (fun h => (h₁.level_le h).imp id (by omega)) .inr
  added := by
    obtain ⟨new₁, htables₁, hadded₁⟩ := h₁.added
    obtain ⟨new₂, htables₂, hadded₂⟩ := h₂.added
    refine ⟨new₂ ++ new₁, by rw [htables₂, htables₁, List.append_assoc], fun b => ?_⟩
    rw [hadded₂, hadded₁, List.mem_append, or_assoc, or_comm (a := b ∈ new₁)]
  leaf va' hout l := by
    have hfirst := h₁.leaf va' fun l hl => hout l (by omega)
    rw [h₂.leaf va' (fun l hl hleaf heq => ?_) l, hfirst l]
    by_cases hsplit : t.leaf level (slotNumber level va) = none
    · have hway : t.OutsideSplit va (level + 1) va := fun l hl hleaf => by
        rcases Nat.lt_or_eq_of_le (Nat.le_of_lt_succ hl) with hlt | rfl
        · exact absurd (htree.leaf_eq_none_above hnode hlt) hleaf
        · exact absurd hsplit hleaf
      rw [h₁.leaf va hway] at hleaf
      exact hout l hl hleaf heq
    · have hlevel : ¬l ≤ level := fun hle' => hleaf (htree₁.leaf_eq_none_above hnode₁ (by omega))
      exact hout level (by omega) hsplit (Radix.Path.eq_of_le (slotNumber_path va') (slotNumber_path va)
        (by omega) (by omega) heq)
  mem w hw := by
    rw [h₂.mem w hw, h₁.mem w fun b ⟨level, n, hb⟩ => hw b ⟨level, n, h₂.kept hb⟩]

theorem linkTable_trapped (s : Mmu A) (table idx : Nat) {level : Nat} (hlevel : level ≠ 3) :
    (s.linkTable pages table idx level).trapped = s.trapped := by
  rw [linkTable, mmuCreateTableEntry, decide_eq_true hlevel, assert_true]
  rfl

theorem descend_of_block {s : Mmu A} {table address level e : Nat} (hlevel : level < 3)
    (hslot : address / regionSize level < 512)
    (hread : s.read table (address / regionSize level) = e) (he : e % 4 = 1) :
    descend pages level ⟨table, address, s⟩ =
      ⟨(s.mmuSplitBlockEntry pages table (address / regionSize level) level).1,
        address % regionSize level,
        (s.mmuSplitBlockEntry pages table (address / regionSize level) level).2⟩ := by
  have hvalid : mmuEntryValid e = true := by
    rw [mmuEntryValid_eq, decide_eq_true_iff]
    omega
  have hdesc : mmuEntryDescriptor e = false := by
    rw [mmuEntryDescriptor_eq, decide_eq_false_iff_not]
    omega
  simp only [descend, regionSize_eq (Nat.le_of_lt hlevel),
    u32_of_lt (by omega : address / regionSize level < 2 ^ 32), hread, hvalid, hdesc, Bool.not_true,
    Bool.false_eq_true, if_false]

/-- The step that puts a new table in place of a block. -/
theorem Holds.splitLeaf {fin s : Mmu A} {root level n a i e : Nat} {t : MmuTree}
    (h : Holds fin root s t) (hnode : t.node level n = some a) (hi : i < 512)
    (hlevel : level = 1 ∨ level = 2) (hleaf : t.leaf level (n * 512 + i) = some e)
    (hfin : (s.newPage pages :: s.tables) <:+ fin.tables) :
    Holds fin root (splitState pages s a i level)
      (t.splitLeaf 512 level (n * 512 + i) (s.newPage pages) (splitEntry level e)) := by
  obtain ⟨hpage, hold, -⟩ := h.fresh.newPage hfin
  have hbelow := h.tree.wellFormed.leaf_end hleaf
  have hword := h.tree.word_of_leaf hnode hi hleaf
  refine ⟨?_, h.fresh.addTable hfin rfl fun b => (hasTable_addNode hbelow).mp⟩
  refine h.tree.splitLeaf hnode hi (by omega) hleaf hpage hold
    (isLeafEntry_splitEntry hlevel e) fun w => ?_
  rw [splitState, hword]

/-- Addresses outside the block have the leaves they had. -/
theorem splitLeaf_leaf {t : MmuTree} {level va va' e b : Nat} {unit : Nat → Nat} (hlevel : level < 3)
    (hleaf : t.leaf level (slotNumber level va) = some e) (hout : t.OutsideSplit va (level + 1) va')
    (l : Nat) : (t.splitLeaf 512 level (slotNumber level va) b unit).leaf l (slotNumber l va') =
      t.leaf l (slotNumber l va') := by
  have hne : slotNumber level va' ≠ slotNumber level va :=
    hout level (Nat.lt_succ_self level) (by rw [hleaf]; exact Option.some_ne_none e)
  refine Radix.splitLeaf_leaf_of_ne ?_ ?_
  · rintro ⟨rfl, heq⟩
    exact hne heq
  · rintro ⟨rfl, heq⟩
    exact hne ((slotNumber_path va' level hlevel).symm.trans heq)

/-- One round, whatever stands in the slot. -/
theorem descend_round {fin : Mmu A} {root level va : Nat} {d : Descent A} {t : MmuTree}
    (h : Holds fin root d.mmu t) (hd : DescentAt t d level va) (hlevel : level < 3)
    (hfin : (descend pages level d).mmu.tables <:+ fin.tables) :
    ∃ t', Holds fin root (descend pages level d).mmu t' ∧
      Descended d.mmu t (descend pages level d).mmu t' va (level + 1) ∧
      DescentAt t' (descend pages level d) (level + 1) va := by
  obtain ⟨table, address, s⟩ := d
  obtain ⟨a, hnode, rfl⟩ := hd.table
  have ha := h.tree.address hnode
  have hi : slotNumber level va % 512 < 512 := Nat.mod_lt _ (by decide)
  have hnumber : slotNumber level va / 512 * 512 + slotNumber level va % 512 = slotNumber level va :=
    Nat.div_add_mod' _ _
  have hslot : address / regionSize level = slotNumber level va % 512 := hd.slot
  have hread : s.read (setKernelSpace a) (address / regionSize level) =
      s.mem (a / 8 + slotNumber level va % 512) := by
    rw [read_eq ha, hslot]
  cases hleaf : t.leaf level (slotNumber level va) with
  | none =>
    cases hbelow : t.node (level + 1) (slotNumber level va) with
    | some b =>
      have hword := h.tree.word_of_node hnode hi (by rw [hnumber, hbelow])
      rw [descend_of_table hlevel (hslot ▸ hi) (h.tree.subtableAddress hbelow) (hread.trans hword)]
      exact ⟨t, h, .refl _ _ _ _, hd.below hlevel hbelow rfl rfl⟩
    | none =>
      have hword := h.tree.word_of_empty hnode hi (by rw [hnumber, hleaf]) (by rw [hnumber, hbelow])
      rw [descend_of_empty hlevel (hslot ▸ hi) (hread.trans hword)] at hfin ⊢
      have hstep := h.addNode hnode hi hlevel (by rw [hnumber, hleaf]) (by rw [hnumber, hbelow]) hfin
      rw [hnumber, ← hslot] at hstep
      refine ⟨_, hstep.1, ⟨linkTable_trapped s _ _ (Nat.ne_of_lt hlevel), hstep.2.node_old,
        fun hnode' => (hstep.2.node_new hnode').imp id fun h => by omega,
        ⟨[s.newPage pages], rfl, fun b => ?_⟩, fun _ _ _ => rfl, hstep.2.mem⟩,
        hd.below hlevel Radix.addNode_node_self rfl rfl⟩
      rw [hasTable_addNode hbelow, List.mem_singleton]
  | some e =>
    have hbelow : t.node (level + 1) (slotNumber level va) = none := h.tree.wellFormed.leaf_end hleaf
    have hentry := h.tree.leaf_entry hleaf
    have hlevel' : level = 1 ∨ level = 2 := hentry.elim (·.1) fun h => by omega
    have htype : e % 4 = 1 := hentry.elim (·.2) fun h => by omega
    have hword := h.tree.word_of_leaf hnode hi (by rw [hnumber, hleaf])
    have hpage := splitBlockEntry_tables pages s (setKernelSpace a) (slotNumber level va % 512) level
    rw [createTable_tables] at hpage
    rw [descend_of_block hlevel (hslot ▸ hi) (hread.trans hword) htype, hslot] at hfin ⊢
    rw [hpage] at hfin
    have hnew := h.fresh.newPage hfin
    have hne : s.newPage pages ≠ a := fun heq => hnew.2.1 ⟨level, _, hnode.trans (congrArg some heq.symm)⟩
    rw [splitBlockEntry_eq ha hnew.1.table hne hi hlevel']
    have hstep := h.splitLeaf hnode hi hlevel' (by rw [hnumber, hleaf]) hfin
    rw [hnumber] at hstep
    refine ⟨_, hstep, ⟨rfl, Radix.addNode_node_of_some hbelow,
      fun hnode' => (Radix.addNode_node_eq_some hnode').symm.imp id fun h => by omega,
      ⟨[s.newPage pages], rfl, fun b => ?_⟩, fun va' hout l => splitLeaf_leaf hlevel hleaf hout l, fun w hw => ?_⟩,
      hd.below hlevel Radix.addNode_node_self rfl rfl⟩
    · rw [List.mem_singleton]
      exact hasTable_addNode hbelow
    · have hout : ¬InTable (s.newPage pages) w := hw _ ⟨level + 1, _, Radix.addNode_node_self⟩
      have hslot' : w ≠ a / 8 + slotNumber level va % 512 := by
        rintro rfl
        exact hw a ⟨level, _, Radix.addNode_node_of_some hbelow hnode⟩ (inTable_slot hi)
      exact (if_neg hout).trans (if_neg hslot')

/-! ## The whole descent -/

theorem descent_round {fin : Mmu A} {root va n level : Nat} {d : Descent A} {t : MmuTree}
    (h : Holds fin root d.mmu t) (hd : DescentAt t d level va) (hlevel : level + n ≤ 3)
    (hfin : (forRange (descend pages) n level d).mmu.tables <:+ fin.tables) :
    ∃ t', Holds fin root (forRange (descend pages) n level d).mmu t' ∧
      Descended d.mmu t (forRange (descend pages) n level d).mmu t' va (level + n) ∧
      DescentAt t' (forRange (descend pages) n level d) (level + n) va := by
  induction n generalizing level d t with
  | zero => exact ⟨t, h, .refl _ _ _ _, hd⟩
  | succ n ih =>
    have hrest := descent_recordedIn pages n (level + 1) (descend pages level d)
    obtain ⟨t₁, h₁, hdescended₁, hd₁⟩ := descend_round h hd (by omega) (hrest.tables.trans hfin)
    obtain ⟨t₂, h₂, hdescended₂, hd₂⟩ := ih h₁ hd₁ (by omega) hfin
    obtain ⟨a, hnode, -⟩ := hd.table
    obtain ⟨a₁, hnode₁, -⟩ := hd₁.table
    rw [Nat.add_right_comm] at hdescended₂ hd₂
    exact ⟨t₂, h₂, hdescended₁.trans h.tree hnode h₁.tree hnode₁ hdescended₂ (by omega) hlevel, hd₂⟩

/-- A descent over tables stays in the state it is in. -/
theorem descent_of_tables {root va n level : Nat} {d : Descent A} {t : MmuTree}
    (h : HoldsTree d.mmu.mem root t) (hd : DescentAt t d level va)
    (htables : ∀ l, level ≤ l → l < level + n → ∃ b, t.node (l + 1) (slotNumber l va) = some b) :
    (forRange (descend pages) n level d).mmu = d.mmu ∧
      DescentAt t (forRange (descend pages) n level d) (level + n) va := by
  induction n generalizing level d with
  | zero => exact ⟨rfl, hd⟩
  | succ n ih =>
    obtain ⟨table, address, s⟩ := d
    obtain ⟨a, hnode, rfl⟩ := hd.table
    obtain ⟨b, hb⟩ := htables level (Nat.le_refl _) (by omega)
    have hlevel : level < 3 := h.depth hb
    have hi : slotNumber level va % 512 < 512 := Nat.mod_lt _ (by decide)
    have hslot : address / regionSize level = slotNumber level va % 512 := hd.slot
    have hword := h.word_of_node hnode hi (by rw [Nat.div_add_mod', hb])
    have hread : s.read (setKernelSpace a) (address / regionSize level) =
        mmuTableEntryBits (setKernelSpace b) := by
      rw [read_eq (h.address hnode), hslot, hword]
    have hstep : descend pages level ⟨setKernelSpace a, address, s⟩ =
        ⟨setKernelSpace b, address % regionSize level, s⟩ :=
      descend_of_table hlevel (hslot ▸ hi) (h.subtableAddress hb) hread
    have hd₁ : DescentAt t (descend pages level ⟨setKernelSpace a, address, s⟩) (level + 1) va := by
      rw [hstep]
      exact hd.below hlevel hb rfl rfl
    rw [forRange, hstep]
    rw [hstep] at hd₁
    obtain ⟨hmmu, hd₂⟩ := ih (d := ⟨setKernelSpace b, address % regionSize level, s⟩) h hd₁
      fun l hlo hhi => htables l (by omega) (by omega)
    exact ⟨hmmu, by rwa [Nat.add_right_comm] at hd₂⟩

/-- Where all tables are there already, nothing happens. -/
theorem traverse_of_node {s : Mmu A} {root va dest a : Nat} {t : MmuTree}
    (h : HoldsTree s.mem root t) (hva : va < 2 ^ 48) (hdest : dest ≤ 3)
    (hnode : t.node dest (slotNumber dest va / 512) = some a) :
    s.mmuTraverseAndAllocTables pages (setKernelSpace root) 0 va dest =
      (⟨setKernelSpace a, slotNumber dest va % 512, dest⟩, s) := by
  have hroot : t.node 0 0 = some root := by rw [h.root_node, if_pos rfl]
  have htables : ∀ l, 0 ≤ l → l < 0 + dest → ∃ b, t.node (l + 1) (slotNumber l va) = some b := by
    intro l _ hl
    obtain ⟨dest, rfl⟩ := Nat.exists_eq_succ_of_ne_zero (by omega : dest ≠ 0)
    have hpath : slotNumber (dest + 1) va / 512 = slotNumber dest va := slotNumber_path va dest (by omega)
    rw [Nat.succ_eq_add_one, hpath] at hnode
    exact h.wellFormed.node_above (slotNumber_path va) (by omega) hnode (by omega)
  obtain ⟨hmmu, hd⟩ := @descent_of_tables A pages root va dest 0 _ t h (.start hroot hva s) htables
  rw [Nat.zero_add] at hd
  obtain ⟨a', hnode', htable⟩ := hd.table
  obtain rfl : a' = a := Option.some.inj (hnode'.symm.trans hnode)
  have hi : slotNumber dest va % 512 < 512 := Nat.mod_lt _ (by decide)
  simp only [mmuTraverseAndAllocTables, Nat.zero_max, Nat.sub_zero]
  rw [htable, regionSize_eq hdest, hd.slot, u32_of_lt (by omega), hmmu]

/-- `mmu_traverse_and_alloc_tables` from the root, whatever is on the way. -/
theorem traverse_descended {fin s : Mmu A} {root va dest : Nat} {t : MmuTree} (h : Holds fin root s t)
    (hva : va < 2 ^ 48) (hdest : dest ≤ 3)
    (hfin : (s.mmuTraverseAndAllocTables pages (setKernelSpace root) 0 va dest).2.tables <:+ fin.tables) :
    ∃ t' a, Holds fin root (s.mmuTraverseAndAllocTables pages (setKernelSpace root) 0 va dest).2 t' ∧
      Descended s t (s.mmuTraverseAndAllocTables pages (setKernelSpace root) 0 va dest).2 t' va dest ∧
      t'.node dest (slotNumber dest va / 512) = some a ∧
      (s.mmuTraverseAndAllocTables pages (setKernelSpace root) 0 va dest).1 =
        ⟨setKernelSpace a, slotNumber dest va % 512, dest⟩ := by
  have hroot : t.node 0 0 = some root := by rw [h.tree.root_node, if_pos rfl]
  simp only [mmuTraverseAndAllocTables, Nat.zero_max, Nat.sub_zero] at hfin ⊢
  obtain ⟨t', h', hdescended, hd⟩ := descent_round h (.start hroot hva s) (by omega) hfin
  rw [Nat.zero_add] at hdescended hd
  obtain ⟨a, hnode, htable⟩ := hd.table
  refine ⟨t', a, h', hdescended, hnode, ?_⟩
  have hi : slotNumber dest va % 512 < 512 := Nat.mod_lt _ (by decide)
  rw [htable, regionSize_eq hdest, hd.slot, u32_of_lt (by omega)]

/-- What a descent for `va` to level `dest` comes to: the slot the walk goes through,
in a tree that has grown by new tables only. -/
structure Reaches (s : Mmu A) (t : MmuTree) (root va dest : Nat) (r : MmuEntryInfo × Mmu A)
    (t' : MmuTree) : Prop where
  level : r.1.level = dest
  idx : r.1.idx = slotNumber dest va % 512
  table : ∃ a, walkTable r.2.mem dest 0 root va = some a ∧ r.1.table = setKernelSpace a
  tree : HoldsTree r.2.mem root t'
  kept : ∀ {level n a}, t.node level n = some a → t'.node level n = some a
  added : ∃ new, r.2.tables = new ++ s.tables ∧ new.Nodup ∧
    (∀ b, t'.HasTable b ↔ t.HasTable b ∨ b ∈ new) ∧
    ∀ b ∈ new, ¬t.HasTable b ∧ ∃! w, t'.LinkedAt r.2.mem b w
  walk : ∀ va' < 2 ^ 48, t.OutsideSplit va dest va' →
    walkEntry r.2.mem root va' = walkEntry s.mem root va'
  trapped : r.2.trapped = s.trapped
  mem : ∀ w, (∀ a, t'.HasTable a → ¬InTable a w) → r.2.mem w = s.mem w

/-- A descent reaches its slot and disturbs nothing, and the same descent again finds the
slot and does nothing. -/
def DescendsExactly (pages : PageHeap A) (s : Mmu A) (t : MmuTree) (root va dest : Nat) : Prop :=
  ∃ t', Reaches s t root va dest (s.mmuTraverseAndAllocTables pages (setKernelSpace root) 0 va dest) t' ∧
    (s.mmuTraverseAndAllocTables pages (setKernelSpace root) 0 va dest).2.mmuTraverseAndAllocTables
      pages (setKernelSpace root) 0 va dest =
    s.mmuTraverseAndAllocTables pages (setKernelSpace root) 0 va dest

theorem descendsExactly_of_fresh {s : Mmu A} {root va dest : Nat} {t : MmuTree}
    (h : HoldsTree s.mem root t) (hva : va < 2 ^ 48) (hdest : dest = 2 ∨ dest = 3)
    (hfresh : Fresh t s (s.mmuTraverseAndAllocTables pages (setKernelSpace root) 0 va dest).2) :
    DescendsExactly pages s t root va dest := by
  unfold DescendsExactly
  have hle : dest ≤ 3 := by omega
  have hstart : t.node 0 (slotNumber 0 va / 512) = some root := by
    rw [h.root_node, if_pos]
    simp only [slotNumber, regionSize]
    omega
  have hholds : Holds (s.mmuTraverseAndAllocTables pages (setKernelSpace root) 0 va dest).2 root s t :=
    ⟨h, hfresh⟩
  obtain ⟨t', a, h', hdescended, hnode, hentry⟩ := traverse_descended hholds hva hle List.suffix_rfl
  have hagain := @traverse_of_node A pages _ root va dest a t' h'.tree hva hle hnode
  generalize s.mmuTraverseAndAllocTables pages (setKernelSpace root) 0 va dest = r at *
  obtain ⟨info, s'⟩ := r
  obtain rfl : info = _ := hentry
  refine ⟨t', ⟨rfl, rfl, ⟨a, ?_, rfl⟩, h'.tree, hdescended.kept, ?_, fun va' hva' hout => ?_,
    hdescended.trapped, hdescended.mem⟩, hagain⟩
  · exact h'.tree.walkTable_eq (hdescended.kept hstart) (by rwa [Nat.zero_add])
  · obtain ⟨new, htables, hadded⟩ := hdescended.added
    obtain ⟨taken, htaken, hnodup, hnew⟩ := hfresh
    obtain rfl : taken = new := List.append_cancel_right (htaken.symm.trans htables)
    refine ⟨taken, htables, hnodup, hadded, fun b hb => ⟨(hnew b hb).2, ?_⟩⟩
    obtain ⟨level, n, hb'⟩ := (hadded b).mpr (.inr hb)
    cases level with
    | zero =>
      have hold : t.node 0 n = some b := (h.root_node n).trans ((h'.tree.root_node n).symm.trans hb')
      exact absurd ⟨0, n, hold⟩ (hnew b hb).2
    | succ level => exact h'.tree.existsUnique_link hb'
  · rw [h'.tree.walkEntry_eq hva', h.walkEntry_eq hva']
    exact h.wellFormed.find_congr h'.tree.wellFormed (slotNumber_path va') (by decide)
      (hdescended.leaf va' hout)

/-- A root alone, at `0x80000`, and an allocator whose next page is at 64 GB. -/
def bareRootHigh : Mmu Nat := blank (fun _ => 0) (2 ^ 24)

end Mmu
end PiVOS
