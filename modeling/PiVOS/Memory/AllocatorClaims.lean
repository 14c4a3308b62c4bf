-- SUMMARY: What claiming pages does: first fit for single pages, exactly the pages of a run.
import PiVOS.Memory.AllocatorBits
import Mathlib.Order.Bounds.Basic

/-!
# Claiming

A single page comes from the scan for the first word that is not full. A run of
pages is claimed word by word; its masks are within their words and its words
within the bitmap. `isClaimed` speaks of all words of the memory behind the bitmap,
so what holds for every page says that nothing else was written either.
-/

namespace PiVOS
namespace MemoryAllocator

variable {a : MemoryAllocator}

/-! ## Single pages -/

/-- The bitmap has the size that some `memory_allocator_init` gives it, and so have the pages. -/
def SetUp (a : MemoryAllocator) : Prop :=
  ∃ memory addr numberOfPages pageSize, numberOfPages < 2 ^ 32 ∧ pageSize < 2 ^ 32 ∧
    a.bitmapEntryCount = (init memory addr numberOfPages pageSize).bitmapEntryCount ∧
    a.pageSize = (init memory addr numberOfPages pageSize).pageSize

theorem SetUp.managed_le (h : a.SetUp) : a.managed ≤ 2 ^ 32 := by
  obtain ⟨memory, addr, numberOfPages, pageSize, hpages, -, hentries, -⟩ := h
  have hcount : a.bitmapEntryCount = numberOfPages / 64 := by
    rw [hentries, init, claimRange_bitmapEntryCount, pagesPerEntry]
  simp only [managed, pagesPerEntry, hcount]
  omega

theorem SetUp.pageSize_lt (h : a.SetUp) : a.pageSize < 2 ^ 32 := by
  obtain ⟨memory, addr, numberOfPages, pageSize, -, hlt, -, hsize⟩ := h
  rwa [hsize, init, claimRange_pageSize]

/-- No address of a managed page overflows. -/
theorem SetUp.getAddress (h : a.SetUp) {p : Nat} (hp : p < a.managed) :
    a.getAddress p = p * a.pageSize := by
  have hle : p * a.pageSize ≤ (2 ^ 32 - 1) * (2 ^ 32 - 1) := by
    refine Nat.mul_le_mul ?_ ?_
    · have := h.managed_le
      omega
    · exact Nat.le_sub_one_of_lt h.pageSize_lt
  exact u64_of_lt (Nat.lt_of_le_of_lt hle (by decide))

/-- The managed pages that are free, the lowest first. -/
def freePageList (a : MemoryAllocator) : List Nat :=
  (List.range a.managed).filter fun k => !a.isClaimed k

/-- `n` calls of `memory_allocator_claim_page`, with what they return. -/
def claimPageTimes : Nat → MemoryAllocator → List Nat × MemoryAllocator
  | 0, a => ([], a)
  | n + 1, a =>
    let (addr, a) := a.claimPage
    let (addrs, a) := claimPageTimes n a
    (addr :: addrs, a)

theorem firstFreePage_eq (hsize : a.managed ≤ 2 ^ 32) {p : Nat}
    (h : IsLeast {k | k < a.managed ∧ a.isClaimed k = false} p) : a.firstFreePage = some p := by
  obtain ⟨⟨hlt, hfree⟩, hlow⟩ := h
  cases hfirst : a.firstFreePage with
  | none =>
    rw [firstFreePage_none hfirst p hlt] at hfree
    cases hfree
  | some q =>
    obtain ⟨hq, hqfree, hqlow⟩ := firstFreePage_some hsize hfirst
    have hle : p ≤ q := hlow ⟨hq, hqfree⟩
    rcases Nat.eq_or_lt_of_le hle with rfl | hpq
    · rfl
    · rw [hqlow p hpq] at hfree
      cases hfree

theorem firstFreePage_isSome_iff (hsize : a.managed ≤ 2 ^ 32) :
    a.firstFreePage.isSome ↔ ∃ k < a.managed, a.isClaimed k = false := by
  constructor
  · intro h
    obtain ⟨p, hp⟩ := Option.isSome_iff_exists.mp h
    obtain ⟨hlt, hfree, -⟩ := firstFreePage_some hsize hp
    exact ⟨p, hlt, hfree⟩
  · rintro ⟨k, hk, hfree⟩
    by_contra hnone
    rw [Option.not_isSome_iff_eq_none] at hnone
    rw [firstFreePage_none hnone k hk] at hfree
    cases hfree

theorem claimPage_bitmapEntryCount (a : MemoryAllocator) :
    a.claimPage.2.bitmapEntryCount = a.bitmapEntryCount := by
  unfold claimPage
  split <;> rfl

theorem claimPage_pageSize (a : MemoryAllocator) : a.claimPage.2.pageSize = a.pageSize := by
  unfold claimPage
  split <;> rfl

theorem SetUp.claimPage (h : a.SetUp) : a.claimPage.2.SetUp := by
  obtain ⟨memory, addr, numberOfPages, pageSize, hpages, hlt, hentries, hsize⟩ := h
  exact ⟨memory, addr, numberOfPages, pageSize, hpages, hlt,
    a.claimPage_bitmapEntryCount.trans hentries, a.claimPage_pageSize.trans hsize⟩

/-- A page that is found comes off the list's head. -/
theorem freePageList_of_some (hsize : a.managed ≤ 2 ^ 32) {p : Nat} (h : a.firstFreePage = some p) :
    a.freePageList = p :: (a.claimSpecificPage p).freePageList := by
  obtain ⟨hlt, hfree, hlow⟩ := firstFreePage_some hsize h
  obtain ⟨r, hr⟩ := Nat.exists_eq_add_of_lt hlt
  have hmanaged : (a.claimSpecificPage p).managed = a.managed := rfl
  have hbits : ∀ k, (a.claimSpecificPage p).isClaimed k = (a.isClaimed k || decide (k = p)) :=
    isClaimed_claimSpecificPage p
  -- below `p` everything is taken, above it nothing changes
  have hbelow : ∀ k ∈ List.range p, a.isClaimed k = true := fun k hk => hlow k (List.mem_range.mp hk)
  rw [freePageList, freePageList, hmanaged, hr, Nat.add_assoc, List.range_add, List.range_succ_eq_map]
  simp only [List.filter_append, List.map_cons, Nat.add_zero, List.filter_cons, hbits, hfree]
  have hnone : (List.range p).filter (fun k => !a.isClaimed k) = [] :=
    List.filter_eq_nil_iff.mpr fun k hk => by simp [hbelow k hk]
  have hnone' : (List.range p).filter (fun k => !(a.isClaimed k || decide (k = p))) = [] :=
    List.filter_eq_nil_iff.mpr fun k hk => by simp [hbelow k hk]
  rw [hnone, hnone']
  simp only [List.nil_append, Bool.not_false, if_true, decide_true, Bool.or_true, Bool.not_true,
    Bool.false_eq_true, if_false]
  congr 1
  refine List.filter_congr fun k hk => ?_
  have hne : k ≠ p := by
    simp only [List.mem_map] at hk
    omega
  simp [hne]

theorem freePageList_of_none (h : a.firstFreePage = none) : a.freePageList = [] :=
  List.filter_eq_nil_iff.mpr fun k hk => by simp [firstFreePage_none h k (List.mem_range.mp hk)]

/-- Calls return the free pages from the lowest on, and NULL when there are no more. -/
theorem claimPageTimes_spec (n : Nat) (h : a.SetUp) :
    (a.claimPageTimes n).1 = (a.freePageList.take n).map (· * a.pageSize)
        ++ List.replicate (n - a.freePageList.length) null ∧
      ∀ k, (a.claimPageTimes n).2.isClaimed k
        = (a.isClaimed k || decide (k ∈ a.freePageList.take n)) := by
  induction n generalizing a with
  | zero => simp [claimPageTimes]
  | succ n ih =>
    obtain ⟨hreturned, hbits⟩ := ih h.claimPage
    cases hfirst : a.firstFreePage with
    | none =>
      rw [claimPage_none hfirst] at hreturned hbits
      simp only [claimPageTimes, claimPage_none hfirst, freePageList_of_none hfirst] at hreturned hbits ⊢
      refine ⟨?_, by simpa using hbits⟩
      rw [hreturned]
      simp [List.replicate_succ]
    | some p =>
      have hlist := freePageList_of_some h.managed_le hfirst
      have hlt := (firstFreePage_some h.managed_le hfirst).1
      rw [claimPage_some hfirst] at hreturned hbits
      simp only [claimPageTimes, claimPage_some hfirst, hlist] at hreturned hbits ⊢
      refine ⟨?_, fun k => ?_⟩
      · rw [hreturned, h.getAddress hlt]
        simp
      · rw [hbits, isClaimed_claimSpecificPage, Bool.or_assoc, ← Bool.decide_or]
        simp [eq_comm]

/-- A single page is claimed by first fit: a page is found just when a managed one
is free; the lowest one is returned and nothing else is taken; of a full bitmap
nothing is returned and nothing changes. So calls return every free page once, the
lowest first. Page 0 has the address NULL. -/
theorem claimPage_firstFit (h : a.SetUp) :
    (a.firstFreePage.isSome ↔ ∃ k < a.managed, a.isClaimed k = false) ∧
    (∀ p, IsLeast {k | k < a.managed ∧ a.isClaimed k = false} p →
      a.claimPage.1 = p * a.pageSize ∧
        ∀ k, a.claimPage.2.isClaimed k = (a.isClaimed k || decide (k = p))) ∧
    ((∀ e < a.bitmapEntryCount, a.bitmap e = pageFull) → a.claimPage = (null, a)) ∧
    ∀ n, (a.claimPageTimes n).1 = (a.freePageList.take n).map (· * a.pageSize)
        ++ List.replicate (n - a.freePageList.length) null ∧
      ∀ k, (a.claimPageTimes n).2.isClaimed k
        = (a.isClaimed k || decide (k ∈ a.freePageList.take n)) := by
  refine ⟨firstFreePage_isSome_iff h.managed_le, fun p hp => ?_, fun hfull => ?_,
    fun n => claimPageTimes_spec n h⟩
  · have hfirst := firstFreePage_eq h.managed_le hp
    rw [claimPage_some hfirst]
    exact ⟨h.getAddress hp.1.1, isClaimed_claimSpecificPage p⟩
  · refine claimPage_none ?_
    by_contra hsome
    obtain ⟨k, hk, hfree⟩ :=
      (firstFreePage_isSome_iff h.managed_le).mp (Option.ne_none_iff_isSome.mp hsome)
    simp only [managed, pagesPerEntry] at hk
    rw [isClaimed_of_full (hfull _ (by omega))] at hfree
    cases hfree

/-- One word of bitmap in which page 2 is the only free page. -/
def thirdPageFree : MemoryAllocator :=
  { bitmap := fun _ => 0xDFFFFFFFFFFFFFFF#64, bitmapEntryCount := 1, pageSize := 4096 }

theorem thirdPageFree_setUp : thirdPageFree.SetUp :=
  ⟨fun _ => 0, 0, 64, 4096, by decide, by decide, rfl, rfl⟩

theorem thirdPageFree_isLeast :
    IsLeast {k | k < thirdPageFree.managed ∧ thirdPageFree.isClaimed k = false} 2 := by
  refine ⟨⟨by decide, by decide⟩, fun k hk => ?_⟩
  by_contra hlt
  obtain rfl | rfl : k = 0 ∨ k = 1 := by omega
  · exact absurd hk.2 (by decide)
  · exact absurd hk.2 (by decide)

theorem claimPage_firstFit_thirdPageFree : thirdPageFree.claimPage.1 = 2 * 4096 ∧
    ∀ k, thirdPageFree.claimPage.2.isClaimed k = (thirdPageFree.isClaimed k || decide (k = 2)) :=
  (claimPage_firstFit thirdPageFree_setUp).2.1 2 thirdPageFree_isLeast

/-! ## Runs -/

variable {p count : Nat}

/-- Where the loop that claims a run of pages stands after so many rounds. -/
def claimRounds (a : MemoryAllocator) (p count rounds : Nat) : RunCursor :=
  loopWhile RunCursor.active RunCursor.claimRound rounds (.start a p count)

theorem RunCursor.active_iff (s : RunCursor) : s.active ↔ 0 < s.count := by
  rw [RunCursor.active, decide_eq_true_iff]

theorem claimRounds_inv (hfit : p + count < 2 ^ 33) (rounds : Nat) :
    ∃ done, ClaimInv a.bitmap p count done (a.claimRounds p count rounds) :=
  Loop.invariant (I := fun s => ∃ done, ClaimInv a.bitmap p count done s)
    (fun _ ⟨_, h⟩ hactive => ⟨_, (h.round hfit hactive).1⟩) ⟨0, .start a p count⟩ rounds

/-- A round writes a word of the bitmap, with a mask that both shifts of
`memory_allocator_convert_to_mask` leave inside the word. -/
structure RoundSafe (a : MemoryAllocator) (s : RunCursor) : Prop where
  entry : s.entry < a.bitmapEntryCount
  pages : 0 < s.pages
  number : sub32 pagesPerEntry s.pages < 64
  offset : s.offset < 64
  mask : s.pages + s.offset ≤ 64

theorem ClaimInv.roundSafe {done : Nat} {s : RunCursor} (h : ClaimInv a.bitmap p count done s)
    (hin : p + count ≤ a.managed) (hc : s.active) : a.RoundSafe s := by
  have hpos := (RunCursor.active_iff s).mp hc
  obtain ⟨hcursor, hoffset⟩ := h.cursor hpos
  have htotal := h.total
  have hpages := h.pages
  simp only [managed, pagesPerEntry] at hin
  refine ⟨by omega, by omega, ?_, hoffset, by omega⟩
  rw [pagesPerEntry, sub32_of_le (by omega)]
  omega

/-- Claiming a run of managed pages comes to its end, every round stays inside the
bitmap and the word, and the pages of the run are taken, no others. -/
theorem claimMultiplePages_exact (hp : p < 2 ^ 32) (hcount : count < 2 ^ 32)
    (hin : p + count ≤ a.managed) :
    (∃ rounds, ∀ n ≥ rounds, (a.claimRounds p count n).active = false ∧
      a.claimMultiplePages p count = { a with bitmap := (a.claimRounds p count n).bitmap }) ∧
    (∀ n, (a.claimRounds p count n).active → a.RoundSafe (a.claimRounds p count n)) ∧
    ∀ k, (a.claimMultiplePages p count).isClaimed k
      = (a.isClaimed k || decide (p ≤ k ∧ k < p + count)) := by
  have hfit : p + count < 2 ^ 33 := by omega
  obtain ⟨hinv, hend⟩ := claimLoop_spec (a := a) hfit
  refine ⟨⟨count, fun n hn => ?_⟩, fun n hactive => ?_, hinv.bits⟩
  · have hsame : a.claimRounds p count n = a.claimRounds p count count :=
      Loop.loopWhile_stable hn hend
    rw [hsame]
    exact ⟨hend, rfl⟩
  · obtain ⟨done, hround⟩ := claimRounds_inv (a := a) hfit n
    exact hround.roundSafe hin hactive

/-- Three words of bitmap with no page taken. -/
def threeWordsFree : MemoryAllocator :=
  { bitmap := fun _ => 0#64, bitmapEntryCount := 3, pageSize := 4096 }

theorem claimMultiplePages_exact_threeWordsFree :
    (∃ rounds, ∀ n ≥ rounds, (threeWordsFree.claimRounds 60 100 n).active = false ∧
      threeWordsFree.claimMultiplePages 60 100 =
        { threeWordsFree with bitmap := (threeWordsFree.claimRounds 60 100 n).bitmap }) ∧
    (∀ n, (threeWordsFree.claimRounds 60 100 n).active →
      threeWordsFree.RoundSafe (threeWordsFree.claimRounds 60 100 n)) ∧
    ∀ k, (threeWordsFree.claimMultiplePages 60 100).isClaimed k
      = (threeWordsFree.isClaimed k || decide (60 ≤ k ∧ k < 60 + 100)) :=
  claimMultiplePages_exact (by decide) (by decide) (by decide)

end MemoryAllocator
end PiVOS
