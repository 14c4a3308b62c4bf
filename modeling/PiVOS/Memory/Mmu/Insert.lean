-- SUMMARY: What runs of `memory_mmu_insert` map, and the region starts it does not handle.
import PiVOS.Memory.Contexts
import PiVOS.Memory.Mmu.MapUnits
import Mathlib.Data.List.Pairwise

/-!
# Inserting regions

A call of `memory_mmu_insert` is up to three stretches of units: pages up to a
block boundary, blocks, and pages again. The number of leading pages is taken
from a distance in bytes, so the stretches fit the region only when there is no
such distance, when the region is too short for blocks, or by accident.
-/

namespace PiVOS
namespace Mmu

variable {A : Type}

/-! ## Stretches of units -/

/-- The units one call of `mmu_map_units` maps. -/
structure Stretch (A : Type) where
  kind : UnitKind A
  first : Nat
  count : Nat

namespace Stretch

variable {p q : Stretch A}

/-- The stretch as the argument of `mmu_map_units`. -/
def map (pages : PageHeap A) (root : Nat) (s : Mmu A) (p : Stretch A) : Mmu A :=
  s.mmuMapUnits pages p.kind (setKernelSpace root) 0 (p.first * p.kind.unitSize) p.count

def Covers (p : Stretch A) (va : Nat) : Prop :=
  p.first * p.kind.unitSize ≤ va ∧ va < (p.first + p.count) * p.kind.unitSize

def Apart (p q : Stretch A) : Prop := ∀ va, p.Covers va → ¬q.Covers va

structure Valid (p : Stretch A) : Prop where
  regular : p.kind.Regular
  count : p.count < 2 ^ 32
  space : (p.first + p.count) * p.kind.unitSize ≤ 2 ^ 48

/-- An address is covered when its slot is one of the units. -/
theorem covers_iff (h : p.kind.Regular) (va : Nat) : p.Covers va ↔
    p.first ≤ slotNumber p.kind.destinationLevel va ∧
      slotNumber p.kind.destinationLevel va < p.first + p.count := by
  have hpos := regionSize_pos p.kind.destinationLevel
  rw [Covers, h.unitSize, slotNumber, Nat.le_div_iff_mul_le hpos, Nat.div_lt_iff_lt_mul hpos]

theorem map_recordedIn (hp : p.Valid) (pages : PageHeap A) (root : Nat) (s : Mmu A) :
    RecordedIn s (p.map pages root s) :=
  (mapUnits_steps hp.regular _ _ _ _ _ : Steps pages _ _ _).recordedIn

theorem foldl_recordedIn {ps : List (Stretch A)} (hps : ∀ p ∈ ps, p.Valid) (pages : PageHeap A)
    (root : Nat) (s : Mmu A) : RecordedIn s (ps.foldl (Stretch.map pages root) s) := by
  induction ps generalizing s with
  | nil => exact .refl s
  | cons p ps ih =>
    rw [List.forall_mem_cons] at hps
    exact (map_recordedIn hps.1 pages root s).trans (ih hps.2 _)

end Stretch

/-! ## The invariant of a run -/

/-- The tree holds the stretches `ps` and nothing else: every leaf belongs to one,
every unit of one has a leaf, and there are no level 3 tables without pages. -/
structure Mapped (ps : List (Stretch A)) (fin : Mmu A) (root : Nat) (s : Mmu A) (t : MmuTree) :
    Prop where
  holds : Holds fin root s t
  regular : ∀ p ∈ ps, p.kind.Regular
  leaf : ∀ {level m e}, t.leaf level m = some e →
    ∃ p ∈ ps, p.kind.Fills fin p.first (p.first + p.count) level m e
  mapped : ∀ p ∈ ps, ∀ m, p.first ≤ m → m < p.first + p.count →
    (t.leaf p.kind.destinationLevel m).isSome
  pageTable : ∀ {n a}, t.node 3 n = some a → ∃ m, m / 512 = n ∧ (t.leaf 3 m).isSome

namespace Mapped

variable {ps : List (Stretch A)} {fin s : Mmu A} {root : Nat} {t : MmuTree}

/-- A leaf on the path of an address covers it. -/
theorem covers_of_leaf (h : Mapped ps fin root s t) {level va e : Nat}
    (hleaf : t.leaf level (slotNumber level va) = some e) : ∃ p ∈ ps, p.Covers va := by
  obtain ⟨p, hp, rfl, hlo, hhi, -⟩ := h.leaf hleaf
  exact ⟨p, hp, (Stretch.covers_iff (h.regular p hp) va).mpr ⟨hlo, hhi⟩⟩

/-- Where no stretch covers a unit, nothing is in its way. -/
theorem isOpen (h : Mapped ps fin root s t) {kind : UnitKind A} (hkind : kind.Regular) {m : Nat}
    (hfree : ∀ p ∈ ps, ∀ va, slotNumber kind.destinationLevel va = m → ¬p.Covers va) :
    kind.Open t m := by
  have hslot := hkind.slotNumber_unit m
  have hnoLeaf : ∀ level va, slotNumber kind.destinationLevel va = m →
      t.leaf level (slotNumber level va) = none := by
    intro level va hva
    cases hleaf : t.leaf level (slotNumber level va) with
    | none => rfl
    | some e =>
      obtain ⟨p, hp, hcovers⟩ := h.covers_of_leaf hleaf
      exact absurd hcovers (hfree p hp va hva)
  refine ⟨fun l _ => hnoLeaf l _ hslot, ?_, fun e he => ?_⟩
  · cases hnode : t.node (kind.destinationLevel + 1) m with
    | none => rfl
    | some a =>
      rcases hkind.level with hlevel | hlevel
      · rw [hlevel] at hnode
        obtain ⟨m', rfl, hm'⟩ := h.pageTable hnode
        have hva : slotNumber 3 (m' * 2 ^ 12) = m' ∧
            slotNumber kind.destinationLevel (m' * 2 ^ 12) = m' / 512 := by
          simp only [slotNumber, regionSize, hlevel]
          omega
        have hnone := hnoLeaf 3 (m' * 2 ^ 12) hva.2
        rw [hva.1] at hnone
        rw [hnone] at hm'
        cases hm'
      · have := h.holds.tree.depth hnode
        omega
  · have hnone := hnoLeaf kind.destinationLevel (m * kind.unitSize) hslot
    rw [hslot, he] at hnone
    cases hnone

/-- One more stretch, apart from those before it. -/
theorem step {pages : PageHeap A} {p : Stretch A} (h : Mapped ps fin root s t) (hp : p.Valid)
    (hapart : ∀ q ∈ ps, p.Apart q) (hfin : RecordedIn (p.map pages root s) fin) :
    ∃ t', Mapped (p :: ps) fin root (p.map pages root s) t' := by
  have hopen : ∀ m, p.first ≤ m → m < p.first + p.count → p.kind.Open t m := fun m hlo hhi =>
    h.isOpen hp.regular fun q hq va hva =>
      hapart q hq va ((Stretch.covers_iff hp.regular va).mpr (hva.symm ▸ ⟨hlo, hhi⟩))
  obtain ⟨t', hmaps⟩ := mapUnits_spec hp.regular h.holds hp.count hp.space hopen hfin
  have hkept : ∀ {level m}, (t.leaf level m).isSome → (t'.leaf level m).isSome := by
    intro level m hsome
    obtain ⟨e, he⟩ := Option.isSome_iff_exists.mp hsome
    rw [hmaps.grown.leaf_old he]
    rfl
  refine ⟨t', hmaps.holds, List.forall_mem_cons.mpr ⟨hp.regular, h.regular⟩,
    fun {level m e} hleaf => ?_, fun q hq m hlo hhi => ?_, fun {n a} hnode => ?_⟩
  · rcases hmaps.grown.leaf_new hleaf with hold | hnew
    · obtain ⟨q, hq, hfills⟩ := h.leaf hold
      exact ⟨q, List.mem_cons_of_mem _ hq, hfills⟩
    · exact ⟨p, List.mem_cons_self .., hnew⟩
  · rcases List.mem_cons.mp hq with rfl | hq
    · exact hmaps.mapped m hlo hhi
    · exact hkept (h.mapped q hq m hlo hhi)
  · rcases hmaps.grown.node_new hnode with hold | ⟨-, hlevel, m, hlo, hhi, hn⟩
    · obtain ⟨m, hm, hsome⟩ := h.pageTable hold
      exact ⟨m, hm, hkept hsome⟩
    · have hdest : p.kind.destinationLevel = 3 := by
        have := hp.regular.le
        omega
      rw [← hdest, hp.regular.slotNumber_unit] at hn
      exact ⟨m, hn.symm, hdest ▸ hmaps.mapped m hlo hhi⟩

/-- Several stretches one after the other. -/
theorem run {pages : PageHeap A} {new : List (Stretch A)} (h : Mapped ps fin root s t)
    (hnew : ∀ p ∈ new, p.Valid) (hpairwise : new.Pairwise Stretch.Apart)
    (hapart : ∀ p ∈ new, ∀ q ∈ ps, q.Apart p)
    (hfin : RecordedIn (new.foldl (Stretch.map pages root) s) fin) :
    ∃ t', Mapped (new.reverse ++ ps) fin root (new.foldl (Stretch.map pages root) s) t' := by
  induction new generalizing ps s t with
  | nil => exact ⟨t, h⟩
  | cons p new ih =>
    rw [List.forall_mem_cons] at hnew hapart
    rw [List.pairwise_cons] at hpairwise
    have hrest : RecordedIn (p.map pages root s) (new.foldl (Stretch.map pages root) (p.map pages root s)) :=
      Stretch.foldl_recordedIn hnew.2 pages root _
    obtain ⟨t₁, h₁⟩ := h.step hnew.1 (fun q hq va hp hq' => hapart.1 q hq va hq' hp) (hrest.trans hfin)
    have hapart' : ∀ q ∈ new, ∀ q' ∈ p :: ps, q'.Apart q := fun q hq =>
      List.forall_mem_cons.mpr ⟨hpairwise.1 q hq, hapart.2 q hq⟩
    obtain ⟨t₂, h₂⟩ := ih h₁ hnew.2 hpairwise.2 hapart' hfin
    exact ⟨t₂, by rwa [List.reverse_cons, List.append_assoc]⟩

end Mapped

/-! ## Calls -/

/-- A call `memory_mmu_insert(root, 0, address, size, memory_type, get_phys_space)`. -/
structure Insertion (A : Type) where
  address : Nat
  size : Nat
  memoryType : Nat
  getPhysSpace : GetPhysSpace A

namespace Insertion

variable (op : Insertion A)

def apply (pages : PageHeap A) (table : Nat) (s : Mmu A) (op : Insertion A) : Mmu A :=
  s.memoryMmuInsert pages table 0 op.address op.size op.memoryType op.getPhysSpace

structure Valid : Prop where
  address : op.address % 4096 = 0
  size : op.size % 4096 = 0
  pos : 0 < op.size
  space : op.address + op.size ≤ 2 ^ 48
  memoryType : op.memoryType < 8

def Covers (va : Nat) : Prop := op.address ≤ va ∧ va < op.address + op.size

def Apart (op op' : Insertion A) : Prop := ∀ va, op.Covers va → ¬op'.Covers va

/-- The bytes up to the next block boundary. -/
def gap : Nat := (op.address + 2 ^ 21 - 1) / 2 ^ 21 * 2 ^ 21 - op.address

/-- The calls that count their leading pages right: too short for a block, starting
at a block, or of a size that is used up by `gap` pages but for less than a block. -/
def CountsRight : Prop :=
  op.size < op.gap + 2 ^ 21 ∨ op.gap = 0 ∨
    op.gap * 4096 ≤ op.size ∧ op.size < op.gap * 4096 + 2 ^ 21

instance : Decidable op.CountsRight := inferInstanceAs (Decidable (_ ∨ _ ∨ _ ∧ _))

/-- The stretches for so many leading pages, blocks and trailing pages. -/
def stretches (leading blocks trailing : Nat) : List (Stretch A) :=
  let offset := leading * 4096
  [⟨pageUnits op.memoryType op.getPhysSpace, op.address / 4096, leading⟩,
    ⟨blockUnits op.memoryType op.getPhysSpace, (op.address + offset) / 2097152, blocks⟩,
    ⟨pageUnits op.memoryType op.getPhysSpace, (op.address + offset + blocks * 2097152) / 4096,
      trailing⟩]

variable {op : Insertion A}

theorem mapUnits_zero (pages : PageHeap A) (kind : UnitKind A) (s : Mmu A) (table address : Nat) :
    s.mmuMapUnits pages kind table 0 address 0 = s := rfl

/-- A stretch that is left out when it is empty. -/
theorem ite_zero_lt_mapUnits {pages : PageHeap A} {kind : UnitKind A} {s : Mmu A}
    {table address count : Nat} :
    (if 0 < count then s.mmuMapUnits pages kind table 0 address count else s) =
      s.mmuMapUnits pages kind table 0 address count := by
  cases count with
  | zero => rfl
  | succ count => exact if_pos (Nat.succ_pos count)

theorem blockAddress_eq (h : op.Valid) : alignUp64 op.address 2097152 = op.address + op.gap := by
  have hspace := h.space
  rw [show 2097152 = 2 ^ 21 by rfl, alignUp64_two_pow (by decide) (by omega), gap]
  omega

/-- The stretches, as the calls of `mmu_map_units` they are. -/
theorem foldl_stretches (h : op.Valid) {leading blocks trailing : Nat}
    (hblocks : blocks = 0 ∨ (op.address + leading * 4096) % 2097152 = 0) (pages : PageHeap A)
    (root : Nat) (s : Mmu A) :
    (op.stretches leading blocks trailing).foldl (Stretch.map pages root) s =
      ((s.mmuMapUnits pages (pageUnits op.memoryType op.getPhysSpace) (setKernelSpace root) 0
          op.address leading).mmuMapUnits pages (blockUnits op.memoryType op.getPhysSpace)
          (setKernelSpace root) 0 (op.address + leading * 4096) blocks).mmuMapUnits pages
        (pageUnits op.memoryType op.getPhysSpace) (setKernelSpace root) 0
        (op.address + leading * 4096 + blocks * 2097152) trailing := by
  have haddress := h.address
  have hpage : (pageUnits op.memoryType op.getPhysSpace).unitSize = 4096 :=
    mmuSizeOfLevelRegion_three
  have hblock : (blockUnits op.memoryType op.getPhysSpace).unitSize = 2097152 :=
    mmuSizeOfLevelRegion_two
  have hfirst : op.address / 4096 * 4096 = op.address := by omega
  have hthird : (op.address + leading * 4096 + blocks * 2097152) / 4096 * 4096 =
      op.address + leading * 4096 + blocks * 2097152 := Nat.div_mul_cancel (by omega)
  simp only [stretches, List.foldl_cons, List.foldl_nil, Stretch.map, hpage, hblock, hfirst, hthird]
  rcases hblocks with rfl | hblocks
  · rw [mapUnits_zero, mapUnits_zero]
  · rw [Nat.div_mul_cancel (Nat.dvd_of_mod_eq_zero hblocks)]

section Counts

variable (h : op.Valid) (pages : PageHeap A) (table : Nat) (s : Mmu A)

include h

theorem gap_facts :
    op.gap < 2097152 ∧ op.gap % 4096 = 0 ∧ (op.address + op.gap) % 2097152 = 0 ∧
      sub64 (op.address + op.gap) op.address = op.gap ∧
      u64 (op.gap + 2097152) = op.gap + 2097152 := by
  have haddress := h.address
  have hgap : op.gap < 2097152 ∧ op.gap % 4096 = 0 ∧ (op.address + op.gap) % 2097152 = 0 := by
    rw [gap]
    omega
  refine ⟨hgap.1, hgap.2.1, hgap.2.2, ?_, u64_of_lt (by omega)⟩
  rw [sub64_of_le (Nat.le_add_right _ _), Nat.add_sub_cancel_left]

/-- A region too short for a block is mapped in pages. -/
theorem apply_of_short (hshort : op.size < op.gap + 2097152) {leading : Nat}
    (hsize : op.size = leading * 4096) :
    op.apply pages table s = s.mmuMapUnits pages (pageUnits op.memoryType op.getPhysSpace) table 0
      op.address leading := by
  obtain ⟨hlt, -, -, hsub, hsum⟩ := gap_facts h
  have hcount : u32 (op.size / 4096) = leading := by
    rw [hsize, Nat.mul_div_cancel _ (by decide), u32_of_lt (by omega)]
  rw [apply, memoryMmuInsert]
  simp only [mmuSizeOfLevelRegion_two, mmuPageSize_eq, blockAddress_eq h, hsub, hsum, hcount]
  rw [if_neg (Nat.not_le.mpr hshort)]

/-- A region that starts at a block is mapped in blocks, and pages after them. -/
theorem apply_of_blockStart (hgap : op.gap = 0) {blocks trailing : Nat} (hpos : 0 < blocks)
    (hsize : op.size = blocks * 2097152 + trailing * 4096) (htrailing : trailing < 512) :
    op.apply pages table s =
      (s.mmuMapUnits pages (blockUnits op.memoryType op.getPhysSpace) table 0 op.address
        blocks).mmuMapUnits pages (pageUnits op.memoryType op.getPhysSpace) table 0
        (op.address + blocks * 2097152) trailing := by
  obtain ⟨-, -, -, hsub, hsum⟩ := gap_facts h
  have hspace := h.space
  have hlong : op.gap + 2097152 ≤ op.size := by omega
  have hleading : u32 (min op.size op.gap) = 0 := by
    rw [hgap, Nat.min_zero, u32_of_lt (by decide)]
  have hblocks : u32 (sub64 op.size 0 / 2097152) = blocks := by
    rw [sub64_of_le (Nat.zero_le _), Nat.sub_zero, u32_of_lt (by omega)]
    omega
  have hoffset : u64 (0 + blocks * 2097152) = blocks * 2097152 := by
    rw [Nat.zero_add, u64_of_lt (by omega)]
  have hrest : u32 (sub64 op.size (blocks * 2097152) / 4096) = trailing := by
    rw [sub64_of_le (by omega), u32_of_lt (by omega)]
    omega
  have hstart : u64 (op.address + 0) = op.address := u64_of_lt (by omega)
  have hend : u64 (op.address + blocks * 2097152) = op.address + blocks * 2097152 :=
    u64_of_lt (by omega)
  rw [apply, memoryMmuInsert]
  simp only [mmuSizeOfLevelRegion_two, mmuPageSize_eq, blockAddress_eq h, hsub, hsum, hleading]
  rw [if_pos hlong, if_neg (Nat.lt_irrefl 0)]
  simp only [hblocks, hoffset, hstart]
  rw [if_pos hpos]
  simp only [hrest, hend, ite_zero_lt_mapUnits]

/-- A region whose leading pages happen to leave less than a block. -/
theorem apply_of_leading (hgap : 0 < op.gap) (hlong : op.gap + 2097152 ≤ op.size) {trailing : Nat}
    (hsize : op.size = op.gap * 4096 + trailing * 4096) (htrailing : trailing < 512) :
    op.apply pages table s =
      (s.mmuMapUnits pages (pageUnits op.memoryType op.getPhysSpace) table 0 op.address
        op.gap).mmuMapUnits pages (pageUnits op.memoryType op.getPhysSpace) table 0
        (op.address + op.gap * 4096) trailing := by
  obtain ⟨hlt, -, -, hsub, hsum⟩ := gap_facts h
  have hspace := h.space
  have hleading : u32 (min op.size op.gap) = op.gap := by
    rw [Nat.min_eq_right (by omega), u32_of_lt (by omega)]
  have hoffset : u64 (op.gap * 4096) = op.gap * 4096 := u64_of_lt (by omega)
  have hrest : sub64 op.size (op.gap * 4096) = trailing * 4096 := by
    rw [sub64_of_le (by omega)]
    omega
  have hblocks : u32 (trailing * 4096 / 2097152) = 0 := by
    rw [Nat.div_eq_of_lt (by omega), u32_of_lt (by decide)]
  have hcount : u32 (trailing * 4096 / 4096) = trailing := by
    rw [Nat.mul_div_cancel _ (by decide), u32_of_lt (by omega)]
  have hend : u64 (op.address + op.gap * 4096) = op.address + op.gap * 4096 := u64_of_lt (by omega)
  rw [apply, memoryMmuInsert]
  simp only [mmuSizeOfLevelRegion_two, mmuPageSize_eq, blockAddress_eq h, hsub, hsum, hleading]
  rw [if_pos hlong, if_pos hgap]
  simp only [hoffset, hrest, hblocks]
  rw [if_neg (Nat.lt_irrefl 0)]
  simp only [hrest, hcount, hend, ite_zero_lt_mapUnits]

/-- A call that counts right is its stretches in order. -/
theorem apply_eq (hcounts : op.CountsRight) :
    ∃ leading blocks trailing,
      leading * 4096 + blocks * 2097152 + trailing * 4096 = op.size ∧
      (blocks = 0 ∨ (op.address + leading * 4096) % 2097152 = 0) ∧
      leading < 2 ^ 32 ∧ trailing < 2 ^ 32 ∧
      ∀ pages root s, op.apply pages (setKernelSpace root) s =
        (op.stretches leading blocks trailing).foldl (Stretch.map pages root) s := by
  obtain ⟨hlt, hmod, hblock, -, -⟩ := gap_facts h
  have hspace := h.space
  obtain ⟨n, hn⟩ : ∃ n, op.size = n * 4096 := ⟨op.size / 4096, by have := h.size; omega⟩
  by_cases hshort : op.size < op.gap + 2097152
  · refine ⟨n, 0, 0, by omega, .inl rfl, by omega, by omega, fun pages root s => ?_⟩
    rw [foldl_stretches h (.inl rfl), mapUnits_zero, mapUnits_zero, apply_of_short h _ _ _ hshort hn]
  · rcases Nat.eq_zero_or_pos op.gap with hzero | hpos
    · obtain ⟨blocks, trailing, hsum, htrailing⟩ : ∃ b t, n = b * 512 + t ∧ t < 512 :=
        ⟨n / 512, n % 512, (Nat.div_add_mod' n 512).symm, Nat.mod_lt _ (by decide)⟩
      have hsize : op.size = blocks * 2097152 + trailing * 4096 := by
        rw [hn, hsum]
        ring
      have hblocks : 0 < blocks := by omega
      have hstart : (op.address + 0 * 4096) % 2097152 = 0 := by
        rw [hzero] at hblock
        rw [Nat.zero_mul]
        exact hblock
      refine ⟨0, blocks, trailing, by omega, .inr hstart, Nat.two_pow_pos 32, by omega,
        fun pages root s => ?_⟩
      rw [foldl_stretches h (.inr hstart), mapUnits_zero, Nat.zero_mul, Nat.add_zero,
        apply_of_blockStart h _ _ _ hzero hblocks hsize htrailing]
    · have hfit : op.gap * 4096 ≤ op.size ∧ op.size < op.gap * 4096 + 2 ^ 21 := by
        rcases hcounts with hcounts | hcounts | hcounts
        · exact absurd hcounts hshort
        · exact absurd hcounts (Nat.ne_of_gt hpos)
        · exact hcounts
      obtain ⟨trailing, rfl⟩ : ∃ t, n = op.gap + t := ⟨n - op.gap, by omega⟩
      have hsize : op.size = op.gap * 4096 + trailing * 4096 := by rw [hn, Nat.add_mul]
      have htrailing : trailing < 512 := by omega
      have hleading : op.gap < 2 ^ 32 := by omega
      refine ⟨op.gap, 0, trailing, by omega, .inl rfl, hleading, by omega, fun pages root s => ?_⟩
      rw [foldl_stretches h (.inl rfl), mapUnits_zero, Nat.zero_mul, Nat.add_zero,
        apply_of_leading h _ _ _ hpos (Nat.not_lt.mp hshort) hsize htrailing]

end Counts

/-- What each of the three stretches covers. -/
theorem stretches_covers (h : op.Valid) {leading blocks : Nat} (trailing : Nat)
    (hblocks : blocks = 0 ∨ (op.address + leading * 4096) % 2097152 = 0) :
    ∃ p₁ p₂ p₃, op.stretches leading blocks trailing = [p₁, p₂, p₃] ∧
      (∀ va, p₁.Covers va ↔ op.address ≤ va ∧ va < op.address + leading * 4096) ∧
      (∀ va, p₂.Covers va ↔ op.address + leading * 4096 ≤ va ∧
        va < op.address + leading * 4096 + blocks * 2097152) ∧
      ∀ va, p₃.Covers va ↔ op.address + leading * 4096 + blocks * 2097152 ≤ va ∧
        va < op.address + leading * 4096 + blocks * 2097152 + trailing * 4096 := by
  have haddress := h.address
  have hpage : (pageUnits op.memoryType op.getPhysSpace).unitSize = 4096 :=
    mmuSizeOfLevelRegion_three
  have hblock : (blockUnits op.memoryType op.getPhysSpace).unitSize = 2097152 :=
    mmuSizeOfLevelRegion_two
  refine ⟨_, _, _, rfl, fun va => ?_, fun va => ?_, fun va => ?_⟩
  · rw [Stretch.Covers, hpage, Nat.add_mul, Nat.div_mul_cancel (by omega)]
  · rw [Stretch.Covers, hblock, Nat.add_mul]
    rcases hblocks with rfl | hblocks
    · simp only [Nat.zero_mul, Nat.add_zero]
      omega
    · rw [Nat.div_mul_cancel (Nat.dvd_of_mod_eq_zero hblocks)]
  · rw [Stretch.Covers, hpage, Nat.add_mul, Nat.div_mul_cancel (by omega)]

theorem stretches_mem (h : op.Valid) {leading blocks trailing : Nat}
    (hsize : leading * 4096 + blocks * 2097152 + trailing * 4096 = op.size)
    (hleading : leading < 2 ^ 32) (htrailing : trailing < 2 ^ 32) {p : Stretch A}
    (hp : p ∈ op.stretches leading blocks trailing) :
    p.Valid ∧ p.kind.memoryType = op.memoryType ∧ p.kind.getPhysSpace = op.getPhysSpace := by
  have hspace := h.space
  have hpage : (pageUnits op.memoryType op.getPhysSpace).unitSize = 4096 :=
    mmuSizeOfLevelRegion_three
  have hblock : (blockUnits op.memoryType op.getPhysSpace).unitSize = 2097152 :=
    mmuSizeOfLevelRegion_two
  simp only [stretches, List.mem_cons, List.not_mem_nil, or_false] at hp
  rcases hp with rfl | rfl | rfl
  · refine ⟨⟨UnitKind.pageUnits_regular _ _, hleading, ?_⟩, rfl, rfl⟩
    simp only [hpage, Nat.add_mul]
    refine Nat.le_trans (Nat.add_le_add_right (Nat.div_mul_le_self _ _) _) ?_
    omega
  · refine ⟨⟨UnitKind.blockUnits_regular _ _, (by omega : blocks < 2 ^ 32), ?_⟩, rfl, rfl⟩
    simp only [hblock, Nat.add_mul]
    refine Nat.le_trans (Nat.add_le_add_right (Nat.div_mul_le_self _ _) _) ?_
    omega
  · refine ⟨⟨UnitKind.pageUnits_regular _ _, htrailing, ?_⟩, rfl, rfl⟩
    simp only [hpage, Nat.add_mul]
    refine Nat.le_trans (Nat.add_le_add_right (Nat.div_mul_le_self _ _) _) ?_
    omega

/-- The stretches of a call that counts right make up its region. -/
theorem exists_stretches (h : op.Valid) (hcounts : op.CountsRight) :
    ∃ ps : List (Stretch A),
      (∀ pages root s, op.apply pages (setKernelSpace root) s =
        ps.foldl (Stretch.map pages root) s) ∧
      (∀ p ∈ ps, p.Valid ∧ p.kind.memoryType = op.memoryType ∧
        p.kind.getPhysSpace = op.getPhysSpace) ∧
      ps.Pairwise Stretch.Apart ∧ ∀ va, op.Covers va ↔ ∃ p ∈ ps, p.Covers va := by
  obtain ⟨leading, blocks, trailing, hsize, hblocks, hleading, htrailing, happly⟩ := apply_eq h hcounts
  obtain ⟨p₁, p₂, p₃, hps, hcovers₁, hcovers₂, hcovers₃⟩ :=
    stretches_covers h trailing hblocks
  refine ⟨_, happly, fun p hp => stretches_mem h hsize hleading htrailing hp, ?_, fun va => ?_⟩
  · rw [hps]
    simp only [List.pairwise_cons, List.mem_cons, List.not_mem_nil, or_false, false_imp_iff,
      implies_true, List.Pairwise.nil, and_true, forall_eq_or_imp, forall_eq, Stretch.Apart,
      hcovers₁, hcovers₂, hcovers₃]
    refine ⟨⟨?_, ?_⟩, ?_⟩ <;> intro va <;> omega
  · rw [hps]
    simp only [List.mem_cons, List.not_mem_nil, or_false, exists_eq_or_imp, exists_eq_left, Covers,
      hcovers₁, hcovers₂, hcovers₃]
    omega

end Insertion

/-! ## Runs of calls -/

theorem UnitKind.Regular.request_eq {kind : UnitKind A} (h : kind.Regular) (virtAddr : Nat) :
    kind.request virtAddr =
      { virtAddr, pageCount := kind.unitSize / mmuPageSize, align := kind.unitSize / mmuPageSize } := by
  have hpages : kind.pagesForUnit = kind.unitSize / mmuPageSize := by
    rw [UnitKind.pagesForUnit, UnitKind.unitSize]
    rcases h.level with hlevel | hlevel
    · rw [hlevel]
      decide
    · rw [hlevel]
      decide
  rw [UnitKind.request, hpages]

/-- A state with no record yet. -/
def blank (mem : Nat → Nat) (heap : A) : Mmu A :=
  { mem, heap, tables := [], grants := [], trapped := false }

@[simp] theorem blank_mem (mem : Nat → Nat) (heap : A) : (blank mem heap).mem = mem := rfl

@[simp] theorem blank_heap (mem : Nat → Nat) (heap : A) : (blank mem heap).heap = heap := rfl

@[simp] theorem blank_tables (mem : Nat → Nat) (heap : A) : (blank mem heap).tables = [] := rfl

/-- A new root and calls of `memory_mmu_insert` on it. -/
def insertAll (pages : PageHeap A) (mem : Nat → Nat) (heap : A) (ops : List (Insertion A)) :
    Nat × Mmu A :=
  let start := (blank mem heap).memoryMmuCreateTable pages
  (start.1, ops.foldl (Insertion.apply pages start.1) start.2)

/-- What is assumed of the allocator and the callbacks, about the pages they gave:
tables are new pages, and a callback gives the address itself or aligned memory. -/
structure SoundGrants (s : Mmu A) : Prop where
  tables_nodup : s.tables.Nodup
  tables_page : ∀ a ∈ s.tables, IsTableAddress a
  grants : ∀ request addr, (request, addr) ∈ s.grants → addr = request.virtAddr ∨
    addr % (request.align * mmuPageSize) = 0 ∧ addr < 2 ^ 48

/-- The tables below the root are pages below 64 GB, where the code finds them again. -/
def LinksLow (s : Mmu A) : Prop := ∀ a ∈ s.tables.dropLast, a < 2 ^ 36

/-- The request for the unit of an address, when units have this size. -/
def unitRequest (size va : Nat) : MmuPhysSpaceRequest :=
  { virtAddr := va / size * size, pageCount := size / mmuPageSize, align := size / mmuPageSize }

theorem UnitKind.Regular.request_unit {kind : UnitKind A} (h : kind.Regular) (va : Nat) :
    kind.request (slotNumber kind.destinationLevel va * kind.unitSize) = unitRequest kind.unitSize va := by
  rw [h.request_eq, slotNumber, ← h.unitSize, unitRequest]

/-- Sound answers for the unit of an address are aligned to the unit. -/
theorem UnitKind.Regular.aligned_of_sound {kind : UnitKind A} (h : kind.Regular) {va addr : Nat}
    (hva : va < 2 ^ 48) (hsound : addr = (unitRequest kind.unitSize va).virtAddr ∨
      addr % ((unitRequest kind.unitSize va).align * mmuPageSize) = 0 ∧ addr < 2 ^ 48) :
    addr % kind.unitSize = 0 ∧ addr < 2 ^ 48 := by
  rcases hsound with heq | ⟨hmod, hlt⟩
  · rw [heq, unitRequest]
    exact ⟨Nat.mul_mod_left _ _, Nat.lt_of_le_of_lt (Nat.div_mul_le_self _ _) hva⟩
  · refine ⟨?_, hlt⟩
    have hpages : kind.unitSize / mmuPageSize * mmuPageSize = kind.unitSize := by
      rw [UnitKind.unitSize]
      rcases h.level with hlevel | hlevel
      · rw [hlevel]
        decide
      · rw [hlevel]
        decide
    rwa [unitRequest, hpages] at hmod

/-- `va` is translated as the call asked: to its place in the page or block its
callback gave for the unit. -/
structure Insertion.Gives (op : Insertion A) (s : Mmu A) (va : Nat) (tr : Translation) : Prop where
  memoryType : tr.attrIndx = op.memoryType
  granted : ∃ size addr, (size = mmuSizeOfLevelRegion 2 ∨ size = mmuSizeOfLevelRegion 3) ∧
    (unitRequest size va, addr) ∈ s.grants ∧
    (∃ heap, (op.getPhysSpace (unitRequest size va) heap).1 = addr) ∧ tr.pa = addr + va % size
  oneToOne : op.getPhysSpace = getPhysSpaceOneToOne → tr.pa = va

/-- The tables map just the regions of the calls, each as its call asked. -/
def MapsExactly (ops : List (Insertion A)) (root : Nat) (s : Mmu A) : Prop :=
  ∀ va < 2 ^ 48,
    (∀ op ∈ ops, op.Covers va → ∃ tr, walk s.mem root va = some tr ∧ op.Gives s va tr) ∧
    ((∀ op ∈ ops, ¬op.Covers va) → walk s.mem root va = none)

/-- The stretches `ps` are those of the calls `ops`. -/
structure Stretches (ops : List (Insertion A)) (ps : List (Stretch A)) : Prop where
  of_op : ∀ p ∈ ps, ∃ op ∈ ops, p.kind.memoryType = op.memoryType ∧
    p.kind.getPhysSpace = op.getPhysSpace ∧ ∀ va, p.Covers va → op.Covers va
  covered : ∀ op ∈ ops, ∀ va, op.Covers va → ∃ p ∈ ps, p.Covers va

theorem Mapped.insertions {pages : PageHeap A} {fin s : Mmu A} {root : Nat} {t : MmuTree}
    {ops : List (Insertion A)} (h : Mapped [] fin root s t) (hvalid : ∀ op ∈ ops, op.Valid)
    (hapart : ops.Pairwise Insertion.Apart) (hcounts : ∀ op ∈ ops, op.CountsRight)
    (hfin : RecordedIn (ops.foldl (Insertion.apply pages (setKernelSpace root)) s) fin) :
    ∃ ps t', Stretches ops ps ∧
      Mapped ps fin root (ops.foldl (Insertion.apply pages (setKernelSpace root)) s) t' := by
  induction ops using List.reverseRecOn with
  | nil =>
    exact ⟨[], t, ⟨fun _ hp => absurd hp List.not_mem_nil, fun _ hop => absurd hop List.not_mem_nil⟩, h⟩
  | append_singleton ops op ih =>
    simp only [List.mem_append, List.mem_singleton, or_imp, forall_and, forall_eq] at hvalid hcounts
    obtain ⟨hpairwise, -, hlast⟩ := List.pairwise_append.mp hapart
    obtain ⟨new, happly, hnew, hnewApart, hcovers⟩ := Insertion.exists_stretches hvalid.2 hcounts.2
    rw [List.foldl_append, List.foldl_cons, List.foldl_nil, happly] at hfin ⊢
    have hrecorded := Stretch.foldl_recordedIn (fun p hp => (hnew p hp).1) pages root
      (ops.foldl (Insertion.apply pages (setKernelSpace root)) s)
    obtain ⟨ps, t₁, hps, h₁⟩ := ih hvalid.1 hpairwise hcounts.1 (hrecorded.trans hfin)
    have hold : ∀ p ∈ new, ∀ q ∈ ps, q.Apart p := by
      intro p hp q hq va hqva hpva
      obtain ⟨op', hop', -, -, hsub⟩ := hps.of_op q hq
      exact hlast op' hop' op (List.mem_singleton_self op) va (hsub va hqva)
        ((hcovers va).mpr ⟨p, hp, hpva⟩)
    obtain ⟨t₂, h₂⟩ := h₁.run (fun p hp => (hnew p hp).1) hnewApart hold hfin
    refine ⟨new.reverse ++ ps, t₂, ⟨fun p hp => ?_, fun op' hop' va hva => ?_⟩, h₂⟩
    · rcases List.mem_append.mp hp with hp | hp
      · rw [List.mem_reverse] at hp
        exact ⟨op, by simp, (hnew p hp).2.1, (hnew p hp).2.2, fun va hva =>
          (hcovers va).mpr ⟨p, hp, hva⟩⟩
      · obtain ⟨op', hop', hkind⟩ := hps.of_op p hp
        exact ⟨op', List.mem_append_left _ hop', hkind⟩
    · rcases List.mem_append.mp hop' with hop' | hop'
      · obtain ⟨p, hp, hva⟩ := hps.covered op' hop' va hva
        exact ⟨p, List.mem_append_right _ hp, hva⟩
      · obtain rfl := List.mem_singleton.mp hop'
        obtain ⟨p, hp, hva⟩ := (hcovers va).mp hva
        exact ⟨p, List.mem_append_left _ (List.mem_reverse.mpr hp), hva⟩

/-- Calls whose regions are apart and that cover the same address are the same. -/
theorem Insertion.eq_of_covers {ops : List (Insertion A)} (hapart : ops.Pairwise Insertion.Apart)
    {op op' : Insertion A} (hop : op ∈ ops) (hop' : op' ∈ ops) {va : Nat} (h : op.Covers va)
    (h' : op'.Covers va) : op = op' := by
  by_contra hne
  have : Std.Symm (Insertion.Apart (A := A)) := ⟨fun a b hab va hb ha => hab va ha hb⟩
  exact hapart.forall hop hop' hne va h h'

/-- The translation a leaf gives is the one its call asked for. -/
theorem Mapped.gives {ps : List (Stretch A)} {s : Mmu A} {root : Nat} {t : MmuTree}
    {ops : List (Insertion A)} (h : Mapped ps s root s t) (hps : Stretches ops ps)
    (hsound : SoundGrants s) (hvalid : ∀ op ∈ ops, op.Valid) {va level e : Nat} (hva : va < 2 ^ 48)
    (hleaf : t.leaf level (slotNumber level va) = some e) :
    ∃ op ∈ ops, op.Covers va ∧ op.Gives s va (translate level e va) := by
  obtain ⟨p, hp, rfl, hlo, hhi, addr, rfl, hgrant, heap, hanswer⟩ := h.leaf hleaf
  have hregular := h.regular p hp
  obtain ⟨op, hop, htype, hcallback, hsub⟩ := hps.of_op p hp
  rw [hregular.request_unit] at hgrant hanswer
  have halign := hregular.aligned_of_sound hva (hsound.grants _ _ hgrant)
  have htranslate := hregular.translate_entry halign.1 halign.2
    (htype ▸ (hvalid op hop).memoryType) va
  refine ⟨op, hop, hsub va ((Stretch.covers_iff hregular va).mpr ⟨hlo, hhi⟩), ?_⟩
  rw [htranslate]
  refine ⟨htype, ⟨p.kind.unitSize, addr, ?_, hgrant, ⟨heap, hcallback ▸ hanswer⟩, rfl⟩, fun hone => ?_⟩
  · rw [UnitKind.unitSize]
    exact hregular.level.imp (congrArg _) (congrArg _)
  · rw [hcallback, hone] at hanswer
    rw [← hanswer]
    exact Nat.div_add_mod' va p.kind.unitSize

theorem Mapped.mapsExactly {ps : List (Stretch A)} {s : Mmu A} {root : Nat} {t : MmuTree}
    {ops : List (Insertion A)} (h : Mapped ps s root s t) (hps : Stretches ops ps)
    (hsound : SoundGrants s) (hvalid : ∀ op ∈ ops, op.Valid)
    (hapart : ops.Pairwise Insertion.Apart) : MapsExactly ops root s := by
  intro va hva
  refine ⟨fun op hop hcovers => ?_, fun hfree => ?_⟩
  · obtain ⟨p, hp, hpva⟩ := hps.covered op hop va hcovers
    obtain ⟨hlo, hhi⟩ := (Stretch.covers_iff (h.regular p hp) va).mp hpva
    obtain ⟨e, hleaf⟩ := Option.isSome_iff_exists.mp (h.mapped p hp _ hlo hhi)
    obtain ⟨op', hop', hcovers', hgives⟩ := h.gives hps hsound hvalid hva hleaf
    obtain rfl := Insertion.eq_of_covers hapart hop hop' hcovers hcovers'
    exact ⟨_, h.holds.tree.walk_of_leaf hva hleaf, hgives⟩
  · refine h.holds.tree.walk_of_no_leaf hva fun level => ?_
    cases hleaf : t.leaf level (slotNumber level va) with
    | none => rfl
    | some e =>
      obtain ⟨op, hop, hcovers, -⟩ := h.gives hps hsound hvalid hva hleaf
      exact absurd hcovers (hfree op hop)

theorem Insertion.foldl_recordedIn {ops : List (Insertion A)} (hvalid : ∀ op ∈ ops, op.Valid)
    (hcounts : ∀ op ∈ ops, op.CountsRight) (pages : PageHeap A) (root : Nat) (s : Mmu A) :
    RecordedIn s (ops.foldl (Insertion.apply pages (setKernelSpace root)) s) := by
  induction ops generalizing s with
  | nil => exact .refl s
  | cons op ops ih =>
    rw [List.forall_mem_cons] at hvalid hcounts
    obtain ⟨new, happly, hnew, -⟩ := Insertion.exists_stretches hvalid.1 hcounts.1
    rw [List.foldl_cons, happly]
    exact (Stretch.foldl_recordedIn (fun p hp => (hnew p hp).1) pages root s).trans
      (ih hvalid.2 hcounts.2 _)

/-- A fresh root is a tree without stretches. -/
theorem Mapped.create {pages : PageHeap A} {mem : Nat → Nat} {heap : A} {fin : Mmu A}
    (hfin : RecordedIn ((blank mem heap).memoryMmuCreateTable pages).2 fin)
    (hsound : SoundGrants fin) (hlow : LinksLow fin) :
    Mapped [] fin ((blank mem heap).newPage pages) ((blank mem heap).memoryMmuCreateTable pages).2
      (MmuTree.bare ((blank mem heap).newPage pages)) := by
  have hroot : (blank mem heap).newPage pages ∈ fin.tables := hfin.tables.subset (List.mem_cons_self ..)
  have hpage := hsound.tables_page _ hroot
  have hclear : ∀ w, InTable ((blank mem heap).newPage pages) w →
      ((blank mem heap).memoryMmuCreateTable pages).2.mem w = 0 := fun w hw => by
    rw [createTable_mem hpage, if_pos hw]
  obtain ⟨taken, htaken⟩ := hfin.tables
  have hnodup := hsound.tables_nodup
  rw [← htaken, createTable_tables, List.nodup_append] at hnodup
  rw [LinksLow, ← htaken, createTable_tables, blank_tables, List.dropLast_concat] at hlow
  refine ⟨⟨.bare hpage hclear, taken, htaken.symm, hnodup.1, fun a ha => ?_⟩, ?_, ?_, ?_, ?_⟩
  · have hpage' := hsound.tables_page a (htaken ▸ List.mem_append_left _ ha)
    refine ⟨⟨hpage'.1, hlow a ha⟩, fun ⟨level, n, hnode⟩ => ?_⟩
    obtain ⟨-, -, rfl⟩ := MmuTree.bare_node_eq_some.mp hnode
    exact hnodup.2.2 _ ha _ (List.mem_cons_self ..) rfl
  · intro p hp
    cases hp
  · rintro level m e ⟨⟩
  · intro p hp
    cases hp
  · intro n a hnode
    have := MmuTree.bare_node_eq_some.mp hnode
    omega

/-- After any calls whose regions are valid and apart and whose leading pages are
counted right, with tables the code finds again, the tables map these regions, as asked,
and nothing else. -/
theorem mapsExactly_of_countsRight (pages : PageHeap A) (mem : Nat → Nat) (heap : A)
    (ops : List (Insertion A)) (hvalid : ∀ op ∈ ops, op.Valid)
    (hapart : ops.Pairwise Insertion.Apart) (hcounts : ∀ op ∈ ops, op.CountsRight)
    (hsound : SoundGrants (insertAll pages mem heap ops).2)
    (hlow : LinksLow (insertAll pages mem heap ops).2) :
    MapsExactly ops (clearKernelSpace (insertAll pages mem heap ops).1)
      (insertAll pages mem heap ops).2 := by
  have hrecorded := Insertion.foldl_recordedIn hvalid hcounts pages
    ((blank mem heap).newPage pages) ((blank mem heap).memoryMmuCreateTable pages).2
  have hcreate := Mapped.create hrecorded hsound hlow
  obtain ⟨ps, t, hps, hmapped⟩ := hcreate.insertions hvalid hapart hcounts (.refl _)
  have hroot : clearKernelSpace (insertAll pages mem heap ops).1 = (blank mem heap).newPage pages :=
    clearKernelSpace_setKernelSpace
      (hsound.tables_page _ (hrecorded.tables.subset (List.mem_cons_self ..))).2
  rw [hroot]
  exact hmapped.mapsExactly hps hsound hvalid hapart

/-! ## An allocator for runs on fixed inputs -/

/-- Hands out one page after the other. -/
def pageCounter : PageHeap Nat where
  pagesAlloc next number _ := (next * 4096, next + number)
  pagesDealloc next _ _ := next

/-- The record of a run of one-to-one calls with `pageCounter`, from page 1 on. -/
structure Counted (s : Mmu Nat) : Prop where
  tables : ∀ a ∈ s.tables, ∃ k < s.heap, a = k * 4096
  nodup : s.tables.Nodup
  heap : s.heap = s.tables.length + 1
  grants : ∀ request addr, (request, addr) ∈ s.grants → addr = request.virtAddr

theorem Counted.step {s s' : Mmu Nat} (h : Counted s)
    (hstep : Step pageCounter getPhysSpaceOneToOne s s') : Counted s' := by
  cases hstep with
  | write => exact ⟨h.tables, h.nodup, h.heap, h.grants⟩
  | assert => exact ⟨h.tables, h.nodup, h.heap, h.grants⟩
  | createTable =>
    refine ⟨fun a ha => ?_, ?_, congrArg (· + 1) h.heap, h.grants⟩
    · rcases List.mem_cons.mp ha with rfl | ha
      · exact ⟨s.heap, Nat.lt_succ_self _, rfl⟩
      · obtain ⟨k, hk, rfl⟩ := h.tables a ha
        exact ⟨k, Nat.lt_succ_of_lt hk, rfl⟩
    · refine List.nodup_cons.mpr ⟨fun ha => ?_, h.nodup⟩
      obtain ⟨k, hk, heq⟩ := h.tables _ ha
      have hlt : k * 4096 < s.heap * 4096 := Nat.mul_lt_mul_of_pos_right hk (by decide)
      exact Nat.ne_of_gt hlt heq
  | getPhysSpace request =>
    refine ⟨h.tables, h.nodup, h.heap, fun request' addr hgrant => ?_⟩
    rcases List.mem_cons.mp hgrant with heq | hgrant
    · obtain ⟨rfl, rfl⟩ := Prod.mk.inj heq
      rfl
    · exact h.grants request' addr hgrant

theorem Counted.steps {s s' : Mmu Nat} (h : Counted s)
    (hsteps : Steps pageCounter getPhysSpaceOneToOne s s') : Counted s' := by
  induction hsteps with
  | refl => exact h
  | tail _ hstep ih => exact ih.step hstep

theorem counted_blank (mem : Nat → Nat) : Counted (blank mem 1) :=
  ⟨fun _ ha => absurd ha List.not_mem_nil, List.nodup_nil, rfl, fun _ _ hg => absurd hg List.not_mem_nil⟩

theorem Counted.create (mem : Nat → Nat) : Counted ((blank mem 1).memoryMmuCreateTable pageCounter).2 :=
  (counted_blank mem).step (.createTable _)

theorem Counted.soundGrants {s : Mmu Nat} (h : Counted s) (hlength : s.tables.length < 2 ^ 35) :
    SoundGrants s := by
  refine ⟨h.nodup, fun a ha => ?_, fun request addr hgrant => .inl (h.grants request addr hgrant)⟩
  obtain ⟨k, hk, rfl⟩ := h.tables a ha
  have hheap := h.heap
  exact ⟨Nat.mul_mod_left _ _, by omega⟩

theorem Counted.linksLow {s : Mmu Nat} (h : Counted s) (hlength : s.tables.length < 2 ^ 23) :
    LinksLow s := by
  intro a ha
  obtain ⟨k, hk, rfl⟩ := h.tables a (List.mem_of_mem_dropLast ha)
  have hheap := h.heap
  omega

/-- Two pages, one on each side of a block boundary. -/
def acrossBlocks : Insertion Nat :=
  { address := 0x1FF000, size := 0x2000, memoryType := 1, getPhysSpace := getPhysSpaceOneToOne }

theorem acrossBlocks_valid : acrossBlocks.Valid := by
  constructor <;> decide

/-- The root of the fixed runs, and the state with it. -/
def counterStart : Nat × Mmu Nat := (blank (fun _ => 0) 1).memoryMmuCreateTable pageCounter

theorem insertAll_counter (op : Insertion Nat) :
    insertAll pageCounter (fun _ => 0) 1 [op] =
      (counterStart.1, op.apply pageCounter counterStart.1 counterStart.2) := by
  unfold counterStart
  rw [insertAll, List.foldl_cons, List.foldl_nil]

theorem acrossBlocks_counted :
    Counted (insertAll pageCounter (fun _ => 0) 1 [acrossBlocks]).2 ∧
      (insertAll pageCounter (fun _ => 0) 1 [acrossBlocks]).2.tables.length ≤ 1 + 2 * 3 := by
  have hkind := UnitKind.pageUnits_regular (A := Nat) 1 getPhysSpaceOneToOne
  rw [insertAll_counter]
  simp only [Insertion.apply_of_short acrossBlocks_valid pageCounter counterStart.1 counterStart.2
    (by decide) (by decide : acrossBlocks.size = 2 * 4096)]
  exact ⟨(Counted.create _).steps (mapUnits_steps hkind _ _ _ _ _),
    mapUnits_tables_length hkind pageCounter counterStart.2 counterStart.1 _ 2⟩

theorem mapsExactly_acrossBlocks :
    MapsExactly [acrossBlocks]
      (clearKernelSpace (insertAll pageCounter (fun _ => 0) 1 [acrossBlocks]).1)
      (insertAll pageCounter (fun _ => 0) 1 [acrossBlocks]).2 :=
  mapsExactly_of_countsRight pageCounter (fun _ => 0) 1 [acrossBlocks]
    (List.forall_mem_singleton.mpr acrossBlocks_valid) (List.pairwise_singleton _ _)
    (List.forall_mem_singleton.mpr (by decide))
    (acrossBlocks_counted.1.soundGrants (Nat.lt_of_le_of_lt acrossBlocks_counted.2 (by decide)))
    (acrossBlocks_counted.1.linksLow (Nat.lt_of_le_of_lt acrossBlocks_counted.2 (by decide)))

/-- A region of 18 MB that starts one page below a block boundary: the 4096 bytes up
to the boundary become 4096 pages, and one block is left for an address inside them. -/
def onePageEarly : Insertion Nat :=
  { address := 0x1FF000, size := 0x1200000, memoryType := 0, getPhysSpace := getPhysSpaceOneToOne }

theorem onePageEarly_valid : onePageEarly.Valid := by
  constructor <;> decide

/-- The pages `onePageEarly` starts with. -/
def earlyPages : Stretch Nat := ⟨pageUnits 0 getPhysSpaceOneToOne, 0x1FF, 4096⟩

theorem earlyPages_valid : earlyPages.Valid :=
  ⟨UnitKind.pageUnits_regular _ _, by decide, by decide⟩

theorem earlyPages_start : earlyPages.first * earlyPages.kind.unitSize = 0x1FF000 := by decide

theorem onePageEarly_apply (root : Nat) (s : Mmu Nat) :
    onePageEarly.apply pageCounter (setKernelSpace root) s =
      (earlyPages.map pageCounter root s).mmuMapUnits pageCounter (blockUnits 0 getPhysSpaceOneToOne)
        (setKernelSpace root) 0 0x11FF000 1 := by
  have hgap : onePageEarly.gap = 4096 := by decide
  have hsub : sub64 (0x1FF000 + 4096) 0x1FF000 = 4096 := by decide
  have hsum : u64 (4096 + 2097152) = 2101248 := by decide
  have hleading : u32 (min 0x1200000 4096) = 4096 := by decide
  have hoffset : u64 (4096 * 4096) = 16777216 := by decide
  have hblocks : u32 (sub64 0x1200000 16777216 / 2097152) = 1 := by decide
  have hend : u64 (16777216 + 1 * 2097152) = 18874368 := by decide
  have htrailing : u32 (sub64 0x1200000 18874368 / 4096) = 0 := by decide
  have hstart : u64 (0x1FF000 + 16777216) = 0x11FF000 := by decide
  have hblock := Insertion.blockAddress_eq onePageEarly_valid
  rw [hgap] at hblock
  simp only [onePageEarly] at hblock
  simp only [Insertion.apply, memoryMmuInsert, onePageEarly, mmuSizeOfLevelRegion_two, mmuPageSize_eq,
    hblock, hsub, hsum]
  rw [hleading, if_pos (by decide : 2101248 ≤ 0x1200000), if_pos (by decide : 0 < 4096)]
  simp only [hoffset, hblocks]
  rw [if_pos (by decide : 0 < 1)]
  simp only [hend, htrailing, hstart]
  rw [if_neg (by decide : ¬0 < 0), Stretch.map, earlyPages_start]
  rfl

/-- A block for an address whose slot holds a page table changes what is mapped
through that slot only. -/
theorem walk_block_over_table {pages : PageHeap A} {kind : UnitKind A} (hkind : kind.Regular)
    (hblock : kind.destinationLevel = 2) {fin s : Mmu A} {root : Nat} {t : MmuTree} {address c va : Nat}
    (h : Holds fin root s t) (haddress : address < 2 ^ 48)
    (hleaf : ∀ l < 2, t.leaf l (slotNumber l address) = none)
    (hc : t.node 3 (slotNumber 2 address) = some c)
    (hfin : RecordedIn (s.mmuMapUnits pages kind (setKernelSpace root) 0 address 1) fin)
    (hva : va < 2 ^ 48) (hne : slotNumber 2 va ≠ slotNumber 2 address)
    (hnone : ∀ level, t.leaf level (slotNumber level va) = none) :
    walk (s.mmuMapUnits pages kind (setKernelSpace root) 0 address 1).mem root va = none := by
  have htraverse := fun hfin : (s.mmuTraverseAndAllocTables pages (setKernelSpace root) 0 address
    2).2.tables <:+ fin.tables => traverse_spec h haddress (by decide) hleaf hfin
  have hvirt : u64 (address + 0) = address := u64_of_lt (by omega)
  rw [mapUnits_one] at hfin ⊢
  simp only [mapRound, hvirt, hblock] at hfin ⊢
  generalize s.mmuTraverseAndAllocTables pages (setKernelSpace root) 0 address 2 = r
    at htraverse hfin ⊢
  obtain ⟨tableData, s₁⟩ := r
  have hbatch := fun unitCount => (mapBatch_steps hkind s₁ tableData unitCount address :
    Steps pages _ _ _).recordedIn
  obtain ⟨t₁, a, h₁, hgrown, hnode, rfl⟩ := htraverse ((hbatch _).trans hfin).tables
  have hi : slotNumber 2 address % 512 < 512 := Nat.mod_lt _ (by decide)
  have hcount : u32 (min (sub64 (mmuNumberOfLevelEntries 2) (slotNumber 2 address % 512)) 1) = 1 := by
    rw [mmuNumberOfLevelEntries, sub64_of_le (by omega), u32_of_lt (by omega)]
    omega
  have hc₁ := hgrown.node_old hc
  have hread : s₁.read (setKernelSpace a) (slotNumber 2 address % 512) =
      mmuTableEntryBits (setKernelSpace c) := by
    rw [read_eq (h₁.tree.address hnode)]
    exact h₁.tree.word_of_node hnode hi (by rw [Nat.div_add_mod', hc₁])
  have hpage := h₁.tree.subtableAddress hc₁
  rw [hcount, mapBatch_one, mapUnit_of_table (by decide : 2 ≠ 3) hpage hread,
    h₁.tree.walk_frame hva hc₁ (fun w hw => fillSubtable_mem hpage.table s₁ address w hw) hne]
  exact h₁.tree.walk_of_no_leaf hva fun level => hgrown.leaf_none (hnone level) fun _ => id

/-- The run maps less than the region: after the leading pages the only block is
spent on pages that are mapped already. -/
theorem not_mapsExactly_onePageEarly :
    onePageEarly.Valid ∧ [onePageEarly].Pairwise Insertion.Apart ∧
      SoundGrants (insertAll pageCounter (fun _ => 0) 1 [onePageEarly]).2 ∧
      ¬MapsExactly [onePageEarly]
        (clearKernelSpace (insertAll pageCounter (fun _ => 0) 1 [onePageEarly]).1)
        (insertAll pageCounter (fun _ => 0) 1 [onePageEarly]).2 := by
  have hkind := UnitKind.blockUnits_regular (A := Nat) 0 getPhysSpaceOneToOne
  have hroot : counterStart.1 = setKernelSpace 4096 := rfl
  rw [insertAll_counter, hroot, clearKernelSpace_setKernelSpace (by decide)]
  simp only [onePageEarly_apply]
  have hleading : Steps pageCounter getPhysSpaceOneToOne counterStart.2
      (earlyPages.map pageCounter 4096 counterStart.2) := mapUnits_steps earlyPages_valid.regular _ _ _ _ _
  have hlength := mapUnits_tables_length earlyPages_valid.regular pageCounter counterStart.2
    (setKernelSpace 4096) (earlyPages.first * earlyPages.kind.unitSize) earlyPages.count
  generalize hs : earlyPages.map pageCounter 4096 counterStart.2 = s at hleading ⊢
  have hblock : Steps pageCounter getPhysSpaceOneToOne s (s.mmuMapUnits pageCounter
      (blockUnits 0 getPhysSpaceOneToOne) (setKernelSpace 4096) 0 0x11FF000 1) :=
    mapUnits_steps hkind _ _ _ _ _
  have hlength' := mapUnits_tables_length hkind pageCounter s (setKernelSpace 4096) 0x11FF000 1
  generalize hfin : s.mmuMapUnits pageCounter (blockUnits 0 getPhysSpaceOneToOne) (setKernelSpace 4096)
    0 0x11FF000 1 = fin at hblock hlength' ⊢
  have hcounted : Counted fin := (Counted.create _).steps (hleading.trans hblock)
  have hfew : fin.tables.length < 2 ^ 23 := by
    have htables : counterStart.2.tables.length = 1 := rfl
    have hcount : earlyPages.count = 4096 := rfl
    rw [Stretch.map] at hs
    rw [hs, htables, hcount] at hlength
    omega
  have hsound : SoundGrants fin := hcounted.soundGrants (hfew.trans (by decide))
  refine ⟨onePageEarly_valid, List.pairwise_singleton _ _, hsound, fun hmaps => ?_⟩
  have hstart : Mapped [] fin 4096 counterStart.2 (MmuTree.bare 4096) :=
    Mapped.create (hleading.recordedIn.trans hblock.recordedIn) hsound (hcounted.linksLow hfew)
  obtain ⟨t, h⟩ := hstart.step earlyPages_valid (fun _ hq => absurd hq List.not_mem_nil)
    (hs ▸ hblock.recordedIn)
  rw [hs] at h
  have hlevel : ∀ {level m e}, t.leaf level m = some e → level = 3 := by
    intro level m e hleaf
    obtain ⟨p, hp, hlevel, -⟩ := h.leaf hleaf
    obtain rfl := List.mem_singleton.mp hp
    exact hlevel
  have hnone : ∀ level, t.leaf level (slotNumber level 0x1200000) = none := by
    intro level
    cases hleaf : t.leaf level (slotNumber level 0x1200000) with
    | none => rfl
    | some e =>
      obtain ⟨p, hp, hcovers⟩ := h.covers_of_leaf hleaf
      obtain rfl := List.mem_singleton.mp hp
      exact absurd hcovers.2 (by decide)
  have hbelow : ∀ l < 2, t.leaf l (slotNumber l 0x11FF000) = none := by
    intro l hl
    cases hleaf : t.leaf l (slotNumber l 0x11FF000) with
    | none => rfl
    | some e =>
      have := hlevel hleaf
      omega
  -- the pages from 0x1000000 on have a level 3 table, in the slot of the block
  have hpage := h.mapped earlyPages (List.mem_singleton_self _) 0x1000 (by decide) (by decide)
  obtain ⟨e, hleaf⟩ := Option.isSome_iff_exists.mp hpage
  obtain ⟨c, hc⟩ := h.holds.tree.wellFormed.leaf_node hleaf
  have hself : RecordedIn (s.mmuMapUnits pageCounter (blockUnits 0 getPhysSpaceOneToOne)
      (setKernelSpace 4096) 0 0x11FF000 1) fin := by
    rw [hfin]
    exact .refl fin
  have hwalk := walk_block_over_table hkind rfl h.holds (by decide : 0x11FF000 < 2 ^ 48) hbelow hc
    hself (by decide : 0x1200000 < 2 ^ 48) (by decide) hnone
  rw [hfin] at hwalk
  obtain ⟨tr, htr, -⟩ := (hmaps 0x1200000 (by decide)).1 onePageEarly (List.mem_singleton_self _)
    (by unfold Insertion.Covers; decide)
  rw [hwalk] at htr
  cases htr

end Mmu
end PiVOS
