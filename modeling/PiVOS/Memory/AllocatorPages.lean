-- SUMMARY: What `memory_allocator_claim_pages` returns: free pages, the lowest run, and always an answer.
import PiVOS.Memory.AllocatorSearch

/-!
# Claiming pages

The two paths of `memory_allocator_claim_pages` side by side. A single page
comes from the first-fit scan, everything else from the aligned run search.
-/

namespace PiVOS
namespace MemoryAllocator

variable {a a' : MemoryAllocator} {number j rounds : Nat}

/-! ## The outcomes of a call -/

/-- A call that takes the search loop and comes back has found the lowest
candidate, or there is none. -/
theorem claimRun_search (hj : j < 32) (hcount : a.bitmapEntryCount < 2 ^ 26) (hpos : 1 ≤ number)
    (hn : number < 2 ^ 32) (hpath : ¬(number = 1 ∧ 2 ^ j = 1)) {page : Option Nat}
    (h : a.claimRun rounds number (2 ^ j) = some (page, a')) :
    (∃ p, page = some p ∧ IsLeast (a.candidates number (2 ^ j)) p ∧
      a' = a.claimMultiplePages p number) ∨
    (page = none ∧ a' = a ∧ a.candidates number (2 ^ j) = ∅) := by
  simp only [claimRun, if_neg hpath] at h
  split at h
  · simp at h
  · rename_i hend
    split at h
    · rename_i hleft
      obtain ⟨rfl, rfl⟩ := Prod.mk.inj (Option.some.inj h)
      exact .inl ⟨_, rfl, search_found hj hcount hpos hn hleft, rfl⟩
    · rename_i hleft
      obtain ⟨rfl, rfl⟩ := Prod.mk.inj (Option.some.inj h)
      refine .inr ⟨rfl, rfl, Set.eq_empty_of_forall_notMem fun p hp => hend ?_⟩
      have hinv := SearchInv.search (a := a) hj hcount hn rounds
      exact hinv.active_of_candidate hp (Nat.pos_of_ne_zero hleft) (hinv.below p hp)

theorem claimRun_single : a.claimRun rounds 1 1 = some (a.firstFreePage, a.claimPage.2) := rfl

/-- A call that has a candidate finds the lowest one. -/
theorem claimRun_finds (hj : j < 32) (hcount : a.bitmapEntryCount < 2 ^ 26) (hpos : 1 ≤ number)
    (hn : number < 2 ^ 32) (hpath : ¬(number = 1 ∧ 2 ^ j = 1)) {p : Nat}
    (hp : IsLeast (a.candidates number (2 ^ j)) p) (hrounds : p * (number + 1) + number ≤ rounds) :
    a.claimRun rounds number (2 ^ j) = some (some p, a.claimMultiplePages p number) := by
  have hleft := search_finds (a := a) hj hcount hn hp.1 hrounds
  have hfound := search_found (a := a) hj hcount hpos hn hleft
  have hactive : a.searchActive (a.search rounds number (2 ^ j)) = false := by
    simp [searchActive, hleft]
  simp only [claimRun, if_neg hpath, hactive, hleft, if_true, Bool.false_eq_true, if_false]
  rw [hfound.unique hp]

/-- A single page is free and becomes the only new claimed page. -/
theorem claimPage_spec (hsize : a.managed ≤ 2 ^ 32) {p : Nat} (h : a.firstFreePage = some p) :
    a.FreeRun 1 p ∧ (∀ q, a.FreeRun 1 q → p ≤ q) ∧
      ∀ k, a.claimPage.2.isClaimed k = (a.isClaimed k || decide (p ≤ k ∧ k < p + 1)) := by
  obtain ⟨hlt, hfree, hlow⟩ := firstFreePage_some hsize h
  refine ⟨⟨hlt, fun k hlo hhi => ?_⟩, fun q hq => ?_, fun k => ?_⟩
  · obtain rfl : k = p := by omega
    exact hfree
  · by_contra hqp
    have := hq.2 q (Nat.le_refl q) (by omega)
    rw [hlow q (by omega)] at this
    exact absurd this (by decide)
  · rw [claimPage_some h, isClaimed_claimSpecificPage]
    congr 2
    apply propext
    omega

/-! ## Only free pages are handed out -/

/-- Whenever the call finds a run, all its pages were free, and claiming them is
all that happens to the bitmap. -/
def HandsOutFree (a : MemoryAllocator) (number align : Nat) : Prop :=
  ∀ rounds p a', a.claimRun rounds number align = some (some p, a') →
    (∀ k, p ≤ k → k < p + number → a.isClaimed k = false) ∧
      ∀ k, a'.isClaimed k = (a.isClaimed k || decide (p ≤ k ∧ k < p + number))

/-- The single-page path, or a bitmap whose lowest candidate is free in the
upper halves of its words too. -/
def SearchSound (a : MemoryAllocator) (number align : Nat) : Prop :=
  (number = 1 ∧ align = 1) ∨ ∀ p, IsLeast (a.candidates number align) p → a.FreeRun number p

theorem candidate_fits {p : Nat} (hcount : a.bitmapEntryCount < 2 ^ 26)
    (hp : p ∈ a.candidates number (2 ^ j)) : p + number < 2 ^ 32 := by
  have hmanaged : a.managed = a.bitmapEntryCount * 64 := rfl
  have hfit := hp.2.1
  omega

theorem handsOutFree_of_searchSound (hj : j < 32) (hcount : a.bitmapEntryCount < 2 ^ 26)
    (hpos : 1 ≤ number) (hn : number < 2 ^ 32) (hsound : a.SearchSound number (2 ^ j)) :
    a.HandsOutFree number (2 ^ j) := by
  have hmanaged : a.managed = a.bitmapEntryCount * 64 := rfl
  intro rounds p a' hrun
  by_cases hpath : number = 1 ∧ 2 ^ j = 1
  · obtain ⟨rfl, hone⟩ := hpath
    rw [hone, claimRun_single] at hrun
    obtain ⟨hpage, rfl⟩ := Prod.mk.inj (Option.some.inj hrun)
    obtain ⟨hfree, -, hbits⟩ := claimPage_spec (by omega) hpage
    exact ⟨hfree.2, hbits⟩
  · rcases claimRun_search hj hcount hpos hn hpath hrun with ⟨q, hq, hleast, rfl⟩ | ⟨hnone, -⟩
    · obtain rfl : p = q := Option.some.inj hq
      have hfree := (hsound.resolve_left hpath) p hleast
      exact ⟨hfree.2, isClaimed_claimMultiplePages (candidate_fits hcount hleast.1)⟩
    · simp at hnone

/-- The pages handed out are free exactly as long as the search, which cannot see
the upper halves of the words, does not stop at a run that is taken there. -/
theorem handsOutFree_iff (hj : j < 32) (hcount : a.bitmapEntryCount < 2 ^ 26)
    (hpos : 1 ≤ number) (hn : number < 2 ^ 32) :
    a.HandsOutFree number (2 ^ j) ↔ a.SearchSound number (2 ^ j) := by
  constructor
  · intro h
    by_cases hpath : number = 1 ∧ 2 ^ j = 1
    · exact .inl hpath
    · refine .inr fun p hp => ?_
      have hrun := claimRun_finds hj hcount hpos hn hpath hp (Nat.le_refl _)
      exact ⟨hp.1.2.1, (h _ _ _ hrun).1⟩
  · exact handsOutFree_of_searchSound hj hcount hpos hn

/-- One word of bitmap with only page 0 taken. -/
def firstPageTaken : MemoryAllocator :=
  { bitmap := fun _ => 0x8000000000000000#64, bitmapEntryCount := 1, pageSize := 4096 }

theorem handsOutFree_iff_firstPageTaken :
    firstPageTaken.HandsOutFree 2 (2 ^ 0) ↔ firstPageTaken.SearchSound 2 (2 ^ 0) :=
  handsOutFree_iff (by decide) (by decide) (by decide) (by decide)

/-- Two pages are wanted and page 0 is handed out again. -/
theorem not_handsOutFree_firstPageTaken : ¬firstPageTaken.HandsOutFree 2 1 := by
  intro h
  have hfree := (h 1 0 _ rfl).1 0 (by decide) (by decide)
  exact absurd hfree (by decide)

/-! ## The search ends and skips nothing -/

/-- What an answer of the call says about the runs of the old bitmap. -/
def AnswerComplete (a : MemoryAllocator) (number align : Nat) :
    Option Nat × MemoryAllocator → Prop
  | (none, a') => a' = a ∧ ∀ q, align ∣ q → ¬a.FreeRun number q
  | (some p, _) => align ∣ p ∧ p + number ≤ a.managed ∧
      ∀ q, align ∣ q → a.FreeRun number q → p ≤ q

theorem answerComplete_single (hsize : a.managed ≤ 2 ^ 32) :
    a.AnswerComplete 1 1 (a.firstFreePage, a.claimPage.2) := by
  cases h : a.firstFreePage with
  | none =>
    refine ⟨by rw [claimPage_none h], fun q _ hq => ?_⟩
    have hq0 := hq.2 q (Nat.le_refl q) (by omega)
    rw [firstFreePage_none h q hq.1] at hq0
    exact absurd hq0 (by decide)
  | some p =>
    obtain ⟨hfree, hlow, -⟩ := claimPage_spec hsize h
    exact ⟨Nat.one_dvd p, hfree.1, fun q _ hq => hlow q hq⟩

theorem answerComplete_of_claimRun (hj : j < 32) (hcount : a.bitmapEntryCount < 2 ^ 26)
    (hpos : 1 ≤ number) (hn : number < 2 ^ 32) {page : Option Nat}
    (h : a.claimRun rounds number (2 ^ j) = some (page, a')) :
    a.AnswerComplete number (2 ^ j) (page, a') := by
  have hmanaged : a.managed = a.bitmapEntryCount * 64 := rfl
  by_cases hpath : number = 1 ∧ 2 ^ j = 1
  · obtain ⟨rfl, hone⟩ := hpath
    rw [hone, claimRun_single] at h
    obtain ⟨rfl, rfl⟩ := Prod.mk.inj (Option.some.inj h)
    rw [hone]
    exact answerComplete_single (by omega)
  · rcases claimRun_search hj hcount hpos hn hpath h with
      ⟨p, rfl, hleast, rfl⟩ | ⟨rfl, rfl, hempty⟩
    · exact ⟨hleast.1.1, hleast.1.2.1, fun q hdvd hq => hleast.2 ⟨hdvd, hq.lowHalfFree⟩⟩
    · refine ⟨rfl, fun q hdvd hq => ?_⟩
      have hmem : q ∈ a'.candidates number (2 ^ j) := ⟨hdvd, hq.lowHalfFree⟩
      rw [hempty] at hmem
      exact hmem

/-- On a bitmap of at most `2 ^ 31` pages every call comes back; an answer of
"none" is right and leaves the bitmap alone, and a run that is found is aligned,
inside the bitmap, and not above the lowest free aligned run. -/
theorem claimRun_total (hj : j < 32) (hsize : a.managed ≤ 2 ^ 31) (hpos : 1 ≤ number)
    (hn : number < 2 ^ 32) :
    ∃ rounds answer, (∀ n ≥ rounds, a.claimRun n number (2 ^ j) = some answer) ∧
      a.AnswerComplete number (2 ^ j) answer := by
  have hmanaged : a.managed = a.bitmapEntryCount * 64 := rfl
  have hcount : a.bitmapEntryCount < 2 ^ 26 := by omega
  have hanswer : ∃ rounds answer, ∀ n ≥ rounds, a.claimRun n number (2 ^ j) = some answer := by
    by_cases hpath : number = 1 ∧ 2 ^ j = 1
    · exact ⟨0, _, fun n _ => if_pos hpath⟩
    · let rounds := 2 ^ 32 * (number + 1) + number
      have hend : a.searchActive (a.search rounds number (2 ^ j)) = false :=
        search_ends hj hsize hn (Nat.le_refl _)
      refine ⟨rounds, if (a.search rounds number (2 ^ j)).pagesLeft = 0
        then (some (a.search rounds number (2 ^ j)).currentPage,
          a.claimMultiplePages (a.search rounds number (2 ^ j)).currentPage number)
        else (none, a), fun n hrounds => ?_⟩
      have hsame : a.search n number (2 ^ j) = a.search rounds number (2 ^ j) :=
        Loop.loopWhile_stable hrounds hend
      simp only [claimRun, if_neg hpath, hsame, hend, Bool.false_eq_true, if_false]
      split <;> rfl
  obtain ⟨rounds, ⟨page, a'⟩, hrun⟩ := hanswer
  exact ⟨rounds, (page, a'), hrun,
    answerComplete_of_claimRun hj hcount hpos hn (hrun rounds (Nat.le_refl _))⟩

theorem claimRun_total_firstPageTaken :
    ∃ rounds answer, (∀ n ≥ rounds, firstPageTaken.claimRun n 3 (2 ^ 2) = some answer) ∧
      firstPageTaken.AnswerComplete 3 (2 ^ 2) answer :=
  claimRun_total (by decide) (by decide) (by decide) (by decide)

end MemoryAllocator
end PiVOS
