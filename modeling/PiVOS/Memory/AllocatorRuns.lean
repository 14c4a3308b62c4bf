-- SUMMARY: Which bits freeing a run clears, and when it undoes the claim.
import PiVOS.Memory.AllocatorSearch

/-!
# Freeing runs

The loop that frees a run keeps using the place of the first page in its word. In
later words it therefore clears other bits than those of the run, and a run that
starts inside a word and goes on in the next is not given back as it was claimed.
-/

namespace PiVOS
namespace MemoryAllocator

variable {a : MemoryAllocator} {fromAddr toAddr p count : Nat}

/-! ## Exact frees -/

/-- The pages of the run are cleared in `a'`, and no others. -/
def ClearsRun (a a' : MemoryAllocator) (p count : Nat) : Prop :=
  ∀ k, a'.isClaimed k = (a.isClaimed k && !decide (p ≤ k ∧ k < p + count))

/-- Freeing the run, by address and count or as a range, clears exactly its bits;
claiming it while it is free and freeing it again changes nothing. -/
structure FreesExactly (a : MemoryAllocator) (fromAddr toAddr p count : Nat) : Prop where
  pages : a.ClearsRun (a.freePages fromAddr count) p count
  range : a.ClearsRun (a.freeRange fromAddr toAddr) p count
  undoPages : a.FreeRun count p → (a.claimRange fromAddr toAddr).freePages fromAddr count = a
  undoRange : a.FreeRun count p → (a.claimRange fromAddr toAddr).freeRange fromAddr toAddr = a

/-- The pages in the later words of a run for which the place of the first page in
its word makes a difference: those of the run before that place, and those behind
the run that are as far from it as the word is from that place. -/
def Strays (p count k : Nat) : Prop :=
  p / 64 < k / 64 ∧ k / 64 * 64 < p + count ∧
    (k % 64 < p % 64 ∧ k < p + count ∨
      p % 64 ≤ k % 64 ∧ p + count ≤ k ∧ k < p + count + p % 64)

/-! ## Bits -/

theorem cleared_iff_of_not_strays {k : Nat} (h : ¬Strays p count k) :
    Cleared p count k ↔ p ≤ k ∧ k < p + count := by
  unfold Strays at h
  unfold Cleared
  rcases Nat.lt_trichotomy (k / 64) (p / 64) with hlt | heq | hgt <;> omega

theorem Strays.not_iff {k : Nat} (h : Strays p count k) :
    ¬(Cleared p count k ↔ p ≤ k ∧ k < p + count) := by
  unfold Strays at h
  unfold Cleared
  omega

/-- A run out of step has a page of its own that stays claimed. -/
theorem strays_of_not_runInStep (h : ¬RunInStep p count) :
    Strays p count ((p / 64 + 1) * 64) ∧ (p / 64 + 1) * 64 < p + count := by
  unfold RunInStep at h
  unfold Strays
  omega

/-- Two bitmaps with the same bits are the same. -/
theorem eq_of_isClaimed {b : MemoryAllocator} (hentries : a.bitmapEntryCount = b.bitmapEntryCount)
    (hsize : a.pageSize = b.pageSize) (hbits : ∀ k, a.isClaimed k = b.isClaimed k) : a = b := by
  have hword : a.bitmap = b.bitmap := by
    funext entry
    refine Word.eq_of_getMsbD fun i hi => ?_
    have hbit := hbits (entry * 64 + i)
    rwa [isClaimed, isClaimed, pageBit, pageBit, show (entry * 64 + i) / 64 = entry by omega,
      show (entry * 64 + i) % 64 = i by omega] at hbit
  cases a
  cases b
  simp_all

theorem clearsRun_freeMultiplePages_iff (hfit : p + count < 2 ^ 32) :
    a.ClearsRun (a.freeMultiplePages p count) p count ↔
      ∀ k, Strays p count k → a.isClaimed k = false := by
  constructor
  · intro h k hstray
    have hbit := h k
    rw [isClaimed_freeMultiplePages_eq hfit] at hbit
    cases hclaimed : a.isClaimed k with
    | false => rfl
    | true =>
      rw [hclaimed, Bool.true_and, Bool.true_and, Bool.not_inj_iff, decide_eq_decide] at hbit
      exact absurd hbit hstray.not_iff
  · intro h k
    rw [isClaimed_freeMultiplePages_eq hfit]
    by_cases hstray : Strays p count k
    · rw [h k hstray, Bool.false_and, Bool.false_and]
    · rw [decide_eq_decide.mpr (cleared_iff_of_not_strays hstray)]

/-- Claiming a free run and freeing it again gives the old bitmap just when the
run is in step. -/
theorem free_claim_iff (hfit : p + count < 2 ^ 32) (hfree : a.FreeRun count p) :
    (a.claimMultiplePages p count).freeMultiplePages p count = a ↔ RunInStep p count := by
  constructor
  · intro h
    by_contra hstep
    obtain ⟨hstray, hin⟩ := strays_of_not_runInStep hstep
    generalize hk : (p / 64 + 1) * 64 = k at hstray hin
    have hpage : p ≤ k ∧ k < p + count := ⟨by omega, hin⟩
    have hbit := congrArg (·.isClaimed k) h
    simp only [isClaimed_freeMultiplePages_eq hfit, isClaimed_claimMultiplePages hfit,
      hfree.2 k hpage.1 hpage.2, hpage, and_self, decide_true, Bool.or_true, Bool.true_and] at hbit
    have hcleared : Cleared p count k := by simpa using hbit
    exact hstray.not_iff ⟨fun _ => hpage, fun _ => hcleared⟩
  · intro hstep
    refine eq_of_isClaimed rfl rfl fun k => ?_
    rw [isClaimed_freeMultiplePages hstep hfit, isClaimed_claimMultiplePages hfit]
    by_cases hk : p ≤ k ∧ k < p + count
    · simp [hk, hfree.2 k hk.1 hk.2]
    · simp [hk]

/-! ## Frees by address -/

/-- The frees are exact as long as the pages gone astray are free anyway, and a
claim is undone as long as the run is in step; then no page goes astray. -/
theorem freesExactly_iff (hentries : a.bitmapEntryCount < 2 ^ 26) (hsize : 0 < a.pageSize)
    (hcount : 1 ≤ count) (hfit : p + count ≤ a.managed)
    (hfrom : clearKernelSpace fromAddr = p * a.pageSize)
    (hto : clearKernelSpace toAddr = (p + count) * a.pageSize) :
    a.FreesExactly fromAddr toAddr p count ↔
      (∀ k, Strays p count k → a.isClaimed k = false) ∧
        (a.FreeRun count p → RunInStep p count) := by
  have hmanaged : a.managed = a.bitmapEntryCount * 64 := rfl
  have hlt : p + count < 2 ^ 32 := by omega
  have hfirst : a.getPageNumber fromAddr = p := getPageNumber_eq hsize (by omega) hfrom
  have hpages : a.rangePages fromAddr toAddr = count := rangePages_eq hsize hcount hlt hfrom hto
  have hclaim : a.claimRange fromAddr toAddr = a.claimMultiplePages p count := by
    rw [claimRange, hfirst, hpages]
  have hfreePages : ∀ b : MemoryAllocator, b.pageSize = a.pageSize →
      b.freePages fromAddr count = b.freeMultiplePages p count := fun b hb => by
    rw [freePages, getPageNumber, hb, ← getPageNumber, hfirst]
  have hfreeRange : ∀ b : MemoryAllocator, b.pageSize = a.pageSize →
      b.freeRange fromAddr toAddr = b.freeMultiplePages p count := fun b hb => by
    rw [freeRange, rangePages, getPageNumber, getPageNumber, hb, ← getPageNumber, ← getPageNumber,
      ← rangePages, hfirst, hpages]
  have hclaimed := a.claimMultiplePages_pageSize p count
  constructor
  · intro h
    refine ⟨?_, fun hfree => ?_⟩
    · rw [← clearsRun_freeMultiplePages_iff hlt, ← hfreePages a rfl]
      exact h.pages
    · have hundo := h.undoPages hfree
      rwa [hclaim, hfreePages _ hclaimed, free_claim_iff hlt hfree] at hundo
  · rintro ⟨hstrays, hstep⟩
    have hclears := (clearsRun_freeMultiplePages_iff hlt).mpr hstrays
    refine ⟨?_, ?_, fun hfree => ?_, fun hfree => ?_⟩
    · rwa [hfreePages a rfl]
    · rwa [hfreeRange a rfl]
    · rw [hclaim, hfreePages _ hclaimed]
      exact (free_claim_iff hlt hfree).mpr (hstep hfree)
    · rw [hclaim, hfreeRange _ hclaimed]
      exact (free_claim_iff hlt hfree).mpr (hstep hfree)

/-- Two words of bitmap with all pages taken. -/
def allTaken : MemoryAllocator :=
  { bitmap := fun _ => pageFull, bitmapEntryCount := 2, pageSize := 4096 }

theorem freesExactly_iff_allTaken :
    allTaken.FreesExactly 4096 (65 * 4096) 1 64 ↔
      (∀ k, Strays 1 64 k → allTaken.isClaimed k = false) ∧
        (allTaken.FreeRun 64 1 → RunInStep 1 64) :=
  freesExactly_iff (by decide) (by decide) (by decide) (by decide) (by decide) (by decide)

/-- Pages 1 to 64 are freed; page 64 stays claimed, page 65 is freed instead. -/
theorem not_freesExactly_allTaken : ¬allTaken.FreesExactly 4096 (65 * 4096) 1 64 := by
  intro h
  have hfreed : (allTaken.freePages 4096 64).isClaimed 64 = true := by decide
  rw [h.pages 64] at hfreed
  exact absurd hfreed (by decide)

end MemoryAllocator
end PiVOS
