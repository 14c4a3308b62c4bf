-- SUMMARY: The heap as address spaces come and go in the order of a stack.
import PiVOS.Memory.AllocatorPages
import PiVOS.Memory.AllocatorRuns
import PiVOS.Memory.InitHeap
import PiVOS.Memory.Space

/-!
# The heap below the spaces

Spaces are made and destroyed in the order of a stack, so the heap depends only on how
many there are. Their tables come from the hole in the low pages, three for each, and
their blocks follow one another from the second block of the memory on.
-/

namespace PiVOS
namespace MemoryAllocator

variable {a : MemoryAllocator} {first d : Nat}

/-- In a RAM of 4 GB the pages before `first`, `d` blocks from the second one on and
everything from the peripherals on are taken. -/
structure Stacked (a : MemoryAllocator) (first d : Nat) : Prop where
  pageSize : a.pageSize = 4096
  entries : a.bitmapEntryCount = 16384
  bits : ∀ k < 2 ^ 20, a.isClaimed k =
    decide (k < first ∨ 512 ≤ k ∧ k < 512 * (d + 1) ∨ 0xF0000 ≤ k)

theorem Stacked.managed (h : a.Stacked first d) : a.managed = 2 ^ 20 := by
  rw [MemoryAllocator.managed, h.entries]
  rfl

theorem Stacked.hole (h : a.Stacked first d) (hroom : first < 512) : a.Hole first 512 where
  pageSize := h.pageSize
  managed := by
    rw [h.managed]
    decide
  small := by
    rw [h.managed]
    decide
  below k hk := by rw [h.bits k (by omega), decide_eq_true (.inl hk)]
  free k hlo hhi := by rw [h.bits k (by omega), decide_eq_false (by omega)]

theorem Stacked.claimSpecificPage (h : a.Stacked first d) :
    (a.claimSpecificPage first).Stacked (first + 1) d where
  pageSize := h.pageSize
  entries := h.entries
  bits k hk := by
    rw [isClaimed_claimSpecificPage, h.bits k hk, ← Bool.decide_or]
    apply decide_eq_decide.mpr
    omega

theorem Stacked.pagesAlloc_single (h : a.Stacked first d) (hroom : first < 512) :
    allocatorPages.pagesAlloc a 1 1 = (first * 4096, a.claimSpecificPage first) := by
  rw [PiVOS.pagesAlloc_single, (h.hole hroom).claimPage_eq hroom]

/-- The search sees that the first block and those of the spaces are taken. -/
theorem Stacked.isLeast_block (h : a.Stacked first d) (hfirst : 32 < first ∧ first ≤ 512)
    (hd : d < 1000) : IsLeast (a.candidates 512 (2 ^ 9)) (512 * (d + 1)) := by
  have hmanaged := h.managed
  refine ⟨⟨Nat.dvd_mul_right _ _, by omega, fun k hlo hhi _ => ?_⟩, fun q hq => ?_⟩
  · rw [h.bits k (by omega), decide_eq_false (by omega)]
  · obtain ⟨⟨c, rfl⟩, hfit, hfree⟩ := hq
    by_contra hlow
    have hpage := hfree (2 ^ 9 * c + 32) (by omega) (by omega) (by omega)
    rw [h.bits _ (by omega), decide_eq_true (by omega)] at hpage
    cases hpage

theorem Stacked.pagesAlloc_block (h : a.Stacked first d) (hfirst : 32 < first ∧ first ≤ 512)
    (hd : d < 1000) : allocatorPages.pagesAlloc a 512 512 =
      (512 * (d + 1) * 4096, a.claimMultiplePages (512 * (d + 1)) 512) := by
  have hrun : a.claimRun (2 ^ 32 * (512 + 1) + 512) 512 512 = _ :=
    claimRun_finds (by decide : 9 < 32) (by rw [h.entries]; decide) (by decide) (by decide) (by decide)
      (h.isLeast_block hfirst hd) (by omega)
  have hcall : allocatorPages.pagesAlloc a 512 512 =
      (a.claimPages (2 ^ 32 * (512 + 1) + 512) 512 512).getD (null, a) := rfl
  have haddr : a.getAddress (512 * (d + 1)) = 512 * (d + 1) * 4096 := by
    rw [getAddress, h.pageSize, u64_of_lt (by omega)]
  rw [hcall, claimPages, hrun, Option.map_some, Option.getD_some]
  exact congrArg (·, _) haddr

theorem Stacked.claimBlock (h : a.Stacked first d) (hd : d < 1000) :
    (a.claimMultiplePages (512 * (d + 1)) 512).Stacked first (d + 1) where
  pageSize := h.pageSize
  entries := h.entries
  bits k hk := by
    rw [isClaimed_claimMultiplePages (by omega), h.bits k hk, ← Bool.decide_or]
    apply decide_eq_decide.mpr
    omega

end MemoryAllocator

open MemoryAllocator

/-! ## Making and destroying -/

/-- The space on the pages from `first` on, with the block behind those of `d` others. -/
def stackedSpace (first d : Nat) : Space where
  root := first * 4096
  level1 := (first + 1) * 4096
  level2 := (first + 2) * 4096
  block := 512 * (d + 1) * 4096

/-- Page `k` belongs to that space. -/
def InStackedSpace (first d k : Nat) : Prop :=
  first ≤ k ∧ k < first + 3 ∨ 512 * (d + 1) ≤ k ∧ k < 512 * (d + 2)

instance (first d k : Nat) : Decidable (InStackedSpace first d k) := inferInstanceAs (Decidable (_ ∨ _))

variable {a : MemoryAllocator} {first d : Nat}

theorem MemoryAllocator.Stacked.spaceGrants (h : a.Stacked first d)
    (hfirst : 32 < first ∧ first + 3 ≤ 512) (hd : d < 1000) : ∃ a', spaceGrants a = (stackedSpace first d, a') ∧
      a'.Stacked (first + 3) (d + 1) ∧
      ∀ k, a'.isClaimed k = (a.isClaimed k || decide (InStackedSpace first d k)) := by
  have h₁ := h.claimSpecificPage
  have h₂ := h₁.claimSpecificPage
  have h₃ := h₂.claimSpecificPage
  refine ⟨_, ?_, h₃.claimBlock hd, fun k => ?_⟩
  · simp only [PiVOS.spaceGrants, h.pagesAlloc_single (by omega), h₁.pagesAlloc_single (by omega),
      h₂.pagesAlloc_single (by omega), h₃.pagesAlloc_block (by omega) hd]
    rfl
  · rw [isClaimed_claimMultiplePages (by omega), isClaimed_claimSpecificPage,
      isClaimed_claimSpecificPage, isClaimed_claimSpecificPage, Bool.or_assoc, Bool.or_assoc,
      Bool.or_assoc, ← Bool.decide_or, ← Bool.decide_or, ← Bool.decide_or]
    congr 1
    apply decide_eq_decide.mpr
    unfold InStackedSpace
    omega

theorem isClaimed_freePages {addr p count : Nat} (hsize : a.pageSize = 4096) (hstep : RunInStep p count)
    (hfit : p + count < 2 ^ 32) (haddr : clearKernelSpace addr = p * 4096) (k : Nat) :
    (a.freePages addr count).isClaimed k = (a.isClaimed k && !decide (p ≤ k ∧ k < p + count)) := by
  rw [← hsize] at haddr
  rw [freePages, getPageNumber_eq (by omega) (by omega) haddr, isClaimed_freeMultiplePages hstep hfit]

/-- Giving a space back leaves the heap as it was before the space was made. -/
theorem giveBack_stackedSpace {a' : MemoryAllocator} (hfirst : first + 3 ≤ 512) (hd : d < 1000)
    (hsize : a'.pageSize = 4096)
    (hsame : a'.bitmapEntryCount = a.bitmapEntryCount ∧ a'.pageSize = a.pageSize)
    (hbits : ∀ k, a'.isClaimed k = (a.isClaimed k || decide (InStackedSpace first d k)))
    (hfree : ∀ k, InStackedSpace first d k → a.isClaimed k = false) :
    (stackedSpace first d).giveBack a' = a := by
  have hclear : ∀ p, p < 2 ^ 32 → clearKernelSpace (setKernelSpace (p * 4096)) = p * 4096 := fun p hp =>
    clearKernelSpace_setKernelSpace (by omega)
  refine eq_of_isClaimed ?_ ?_ fun k => ?_
  · simp [Space.giveBack, hsame.1]
  · simp [Space.giveBack, hsame.2]
  · simp only [Space.giveBack, stackedSpace]
    rw [isClaimed_freePages (by simp [hsize]) (.inr (by omega)) (by omega) (hclear first (by omega)),
      isClaimed_freePages (by simp [hsize]) (.inr (by omega)) (by omega) (hclear (first + 1) (by omega)),
      isClaimed_freePages (by simp [hsize]) (.inr (by omega)) (by omega) (hclear (first + 2) (by omega)),
      isClaimed_freePages hsize (.inl (by omega)) (by omega) (clearKernelSpace_of_lt (by omega)), hbits]
    by_cases hk : InStackedSpace first d k
    · have hfalse := hfree k hk
      unfold InStackedSpace at hk
      rw [hfalse]
      simp
      omega
    · rw [decide_eq_false hk]
      unfold InStackedSpace at hk
      rw [decide_eq_false (by omega), decide_eq_false (by omega), decide_eq_false (by omega),
        decide_eq_false (by omega)]
      simp

theorem stackedSpace_apart (hfirst : first + 3 ≤ 512) (hd : d < 1000) :
    (stackedSpace first d).Apart := by
  have haddress : ∀ p, p < 512 → IsSubtableAddress (p * 4096) := fun p hp =>
    ⟨Nat.mul_mod_left .., by omega⟩
  refine ⟨(haddress _ (by omega)).table, haddress _ (by omega), haddress _ (by omega), ?_, ?_, ?_, ?_, ?_,
    fun pa hlo hhi hw => ?_⟩
  all_goals simp only [Space.IsTableWord, InTable, stackedSpace] at *
  all_goals omega

/-! ## Stacks of spaces -/

/-- The heap below `d` spaces. -/
def heapAt (a : MemoryAllocator) : Nat → MemoryAllocator
  | 0 => a
  | d + 1 => (spaceGrants (heapAt a d)).2

/-- The space above `d` others. -/
def spaceAt (a : MemoryAllocator) (d : Nat) : Space := (spaceGrants (heapAt a d)).1

/-- There is room for the tables of `KPROC_MAX_COUNT` spaces before the second block. -/
structure RoomForSpaces (a : MemoryAllocator) (first : Nat) : Prop where
  stacked : a.Stacked first 0
  low : 32 < first
  room : first + 3 * kprocMaxCount ≤ 512

namespace RoomForSpaces

variable (h : RoomForSpaces a first)

include h

theorem stacked_heapAt (hd : d ≤ kprocMaxCount) : (heapAt a d).Stacked (first + 3 * d) d := by
  induction d with
  | zero => exact h.stacked
  | succ d ih =>
    have hlow := h.low
    have hroom := h.room
    unfold kprocMaxCount at hd hroom
    obtain ⟨a', hgrants, hstacked, -⟩ :=
      (ih (by unfold kprocMaxCount; omega)).spaceGrants (by omega) (by omega)
    rw [heapAt, hgrants]
    exact hstacked

theorem spaceAt_grants (hd : d < kprocMaxCount) : spaceAt a d = stackedSpace (first + 3 * d) d ∧
    ∀ k, (heapAt a (d + 1)).isClaimed k =
      ((heapAt a d).isClaimed k || decide (InStackedSpace (first + 3 * d) d k)) := by
  have hlow := h.low
  have hroom := h.room
  have hstacked := h.stacked_heapAt (Nat.le_of_lt hd)
  unfold kprocMaxCount at hd hroom
  obtain ⟨a', hgrants, -, hbits⟩ := hstacked.spaceGrants (by omega) (by omega)
  rw [spaceAt, heapAt, hgrants]
  exact ⟨rfl, hbits⟩

theorem apart_spaceAt (hd : d < kprocMaxCount) : (spaceAt a d).Apart := by
  have hroom := h.room
  rw [(h.spaceAt_grants hd).1]
  unfold kprocMaxCount at hd hroom
  exact stackedSpace_apart (by omega) (by omega)

/-- Destroying the top space undoes its making. -/
theorem giveBack_spaceAt (hd : d < kprocMaxCount) :
    (spaceAt a d).giveBack (heapAt a (d + 1)) = heapAt a d := by
  have hroom := h.room
  have hstacked := h.stacked_heapAt (Nat.le_of_lt hd)
  have hstacked' := h.stacked_heapAt (Nat.succ_le_of_lt hd)
  obtain ⟨hspace, hbits⟩ := h.spaceAt_grants hd
  unfold kprocMaxCount at hd hroom
  rw [hspace]
  refine giveBack_stackedSpace (by omega) (by omega) hstacked'.pageSize
    ⟨hstacked'.entries.trans hstacked.entries.symm, hstacked'.pageSize.trans hstacked.pageSize.symm⟩
    hbits fun k hk => ?_
  unfold InStackedSpace at hk
  rw [hstacked.bits k (by omega), decide_eq_false (by omega)]

end RoomForSpaces

/-! ## What belongs to a space -/

theorem RoomForSpaces.owns_iff (h : RoomForSpaces a first) (hd : d < kprocMaxCount) (pa : Nat) :
    (spaceAt a d).Owns pa ↔ InStackedSpace (first + 3 * d) d (pa / 4096) := by
  rw [(h.spaceAt_grants hd).1, Space.Owns, InStackedSpace]
  simp only [stackedSpace]
  omega

/-- The pages of the words of a space's tables. -/
theorem RoomForSpaces.isTableWord_iff (h : RoomForSpaces a first) (hd : d < kprocMaxCount) (w : Nat) :
    (spaceAt a d).IsTableWord w ↔ first + 3 * d ≤ w / 512 ∧ w / 512 < first + 3 * d + 3 := by
  rw [(h.spaceAt_grants hd).1, Space.IsTableWord]
  simp only [InTable, stackedSpace]
  omega

theorem RoomForSpaces.block_eq (h : RoomForSpaces a first) (hd : d < kprocMaxCount) :
    (spaceAt a d).block = (d + 1) * 2 ^ 21 := by
  rw [(h.spaceAt_grants hd).1]
  simp only [stackedSpace]
  omega

end PiVOS
