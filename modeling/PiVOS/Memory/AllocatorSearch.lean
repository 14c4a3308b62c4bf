-- SUMMARY: The aligned run search of `memory_allocator_claim_pages`: what it finds, what it skips, when it ends.
import PiVOS.Memory.AllocatorBits
import Mathlib.Order.Bounds.Basic

/-!
# The aligned run search

The search reads each word through a 32-bit variable, so it sees the pages at
places 32 to 63 of a word and takes the other ones for free. Everything it does
is about runs that are free in that half: it stops at the lowest such run, and
no run that is free altogether lies below it.
-/

namespace PiVOS
namespace MemoryAllocator

variable {a : MemoryAllocator} {number align : Nat}

/-! ## Runs -/

/-- All pages of the run are managed and free. -/
def FreeRun (a : MemoryAllocator) (number p : Nat) : Prop :=
  p + number ≤ a.managed ∧ ∀ k, p ≤ k → k < p + number → a.isClaimed k = false

/-- All pages of the run are managed, and those in the low halves of their words are free. -/
def LowHalfFree (a : MemoryAllocator) (number p : Nat) : Prop :=
  p + number ≤ a.managed ∧ ∀ k, p ≤ k → k < p + number → 32 ≤ k % 64 → a.isClaimed k = false

theorem FreeRun.lowHalfFree {p : Nat} (h : a.FreeRun number p) : a.LowHalfFree number p :=
  ⟨h.1, fun k hlo hhi _ => h.2 k hlo hhi⟩

/-- The starts the search is free to stop at. -/
def candidates (a : MemoryAllocator) (number align : Nat) : Set Nat :=
  {q | align ∣ q ∧ a.LowHalfFree number q}

/-! ## One word -/

/-- The part of a word that survives `current_entry` being a `uint32_t`. -/
theorem getMsbD_truncate (x : BitVec 64) (i : Nat) :
    ((x.setWidth 32).setWidth 64).getMsbD i = (decide (32 ≤ i) && x.getMsbD i) := by
  by_cases hi : i < 64
  · rw [BitVec.getMsbD_eq_getLsbD, BitVec.getMsbD_eq_getLsbD, BitVec.getLsbD_setWidth,
      BitVec.getLsbD_setWidth]
    by_cases h : 32 ≤ i
    · have : 64 - 1 - i < 32 := by omega
      simp [h, hi, this]
      omega
    · have : ¬64 - 1 - i < 32 := by omega
      simp [h, this]
  · rw [BitVec.getMsbD_of_ge _ _ (by omega), BitVec.getMsbD_of_ge x _ (by omega), Bool.and_false]

/-- The test of one word looks at the pages in its low half only. -/
theorem wordTest_iff {entry pages offset : Nat} (h : pages + offset ≤ 64) :
    ((a.bitmap entry).setWidth 32).setWidth 64 &&& convertToMask pages offset = 0#64 ↔
      ∀ k, entry * 64 + offset ≤ k → k < entry * 64 + offset + pages → 32 ≤ k % 64 →
        a.isClaimed k = false := by
  rw [convertToMask_eq _ (by omega), Word.and_runMask_eq_zero h]
  constructor
  · intro hw k hlo hhi hk
    have hdiv : k / 64 = entry := by omega
    have := hw (k % 64) (by omega) (by omega)
    rw [getMsbD_truncate, decide_eq_true hk, Bool.true_and] at this
    rw [isClaimed, pageBit, hdiv]
    exact this
  · intro hk i hlo hhi
    rw [getMsbD_truncate]
    by_cases hi : 32 ≤ i
    · have hdiv : (entry * 64 + i) / 64 = entry := by omega
      have hmod : (entry * 64 + i) % 64 = i := by omega
      have := hk (entry * 64 + i) (by omega) (by omega) (by omega)
      rw [isClaimed, pageBit, hdiv, hmod] at this
      rw [this, Bool.and_false]
    · rw [decide_eq_false hi, Bool.false_and]

/-! ## The jump after a conflict -/

/-- How far the search moves on after `checked` pages of a run were looked at. -/
def jump (checked align : Nat) : Nat :=
  if checked > align then alignUp32 checked align else align

section Jump

variable {checked j : Nat}

theorem dvd_jump (hj : j < 32) : 2 ^ j ∣ jump checked (2 ^ j) := by
  unfold jump
  split
  · rw [alignUp32, Word.alignUp_two_pow hj]
    exact Nat.dvd_mul_left _ _
  · exact Nat.dvd_refl _

theorem jump_lt (checked : Nat) (hj : j < 32) : jump checked (2 ^ j) < 2 ^ 32 := by
  unfold jump
  split
  · exact BitVec.isLt _
  · exact Nat.pow_lt_pow_right (by decide) hj

/-- No start that is jumped over lies beyond the pages already looked at. -/
theorem le_checked_of_lt_jump (checked : Nat) (hj : j < 32) {d : Nat} (hd : 2 ^ j ∣ d)
    (h : d < jump checked (2 ^ j)) : d ≤ checked := by
  obtain ⟨m, rfl⟩ := hd
  have hpos : 0 < 2 ^ j := Nat.two_pow_pos j
  unfold jump at h
  split at h
  · rw [alignUp32, Word.alignUp_two_pow hj, Nat.mul_comm] at h
    have hm : m + 1 ≤ (checked + 2 ^ j - 1) % 2 ^ 32 / 2 ^ j := Nat.lt_of_mul_lt_mul_right h
    have := (Nat.le_div_iff_mul_le hpos).mp hm
    have hmod := Nat.mod_le (checked + 2 ^ j - 1) (2 ^ 32)
    rw [Nat.add_mul, Nat.one_mul, Nat.mul_comm] at this
    omega
  · have : m = 0 := by
      by_contra hm
      exact absurd h (Nat.not_lt.mpr (Nat.le_mul_of_pos_right _ (Nat.pos_of_ne_zero hm)))
    subst this
    omega

/-- Without overflow the jump makes progress, by less than `checked + align`. -/
theorem jump_bounds (checked : Nat) (hj : j < 32) (h : checked + 2 ^ j ≤ 2 ^ 32) :
    0 < jump checked (2 ^ j) ∧ jump checked (2 ^ j) < checked + 2 ^ j + 1 := by
  have hpos : 0 < 2 ^ j := Nat.two_pow_pos j
  unfold jump
  split
  · rw [alignUp32, Word.alignUp_two_pow hj, Nat.mod_eq_of_lt (by omega)]
    have hle := Nat.div_mul_le_self (checked + 2 ^ j - 1) (2 ^ j)
    have h1 : 1 ≤ (checked + 2 ^ j - 1) / 2 ^ j := (Nat.le_div_iff_mul_le hpos).mpr (by omega)
    have := Nat.mul_le_mul_right (2 ^ j) h1
    omega
  · omega

end Jump

/-! ## The invariant of the search -/

/-- What the search knows: no candidate lies below `currentPage`, and the pages
of the run at `currentPage` looked at so far are free in the half it sees. -/
structure SearchInv (a : MemoryAllocator) (number align : Nat) (s : Search) : Prop where
  left : s.pagesLeft ≤ number
  aligned : align ∣ s.currentPage
  bound : s.currentPage < 2 ^ 32
  below : ∀ q ∈ a.candidates number align, s.currentPage ≤ q
  seen : ∀ k, s.currentPage ≤ k → k < s.currentPage + (number - s.pagesLeft) → 32 ≤ k % 64 →
    a.isClaimed k = false
  cursor : 0 < s.pagesLeft →
    s.entryIdx * 64 + s.offset = s.currentPage + (number - s.pagesLeft) ∧ s.offset < 64
  inside : s.pagesLeft < number → s.currentPage + (number - s.pagesLeft) ≤ a.managed

theorem SearchInv.start (a : MemoryAllocator) (number align : Nat) :
    SearchInv a number align (.start number) where
  left := Nat.le_refl _
  aligned := Nat.dvd_zero _
  bound := Nat.two_pow_pos 32
  below := fun _ _ => Nat.zero_le _
  seen := fun k _ hk => by simp [Search.start] at hk
  cursor := fun _ => by simp [Search.start]
  inside := fun h => absurd h (Nat.lt_irrefl _)

theorem searchActive_iff {s : Search} :
    a.searchActive s = true ↔ 0 < s.pagesLeft ∧ s.entryIdx < a.bitmapEntryCount := by
  simp [searchActive]

section Round

variable {s : Search} {j : Nat}

/-- The number of pages of the current word that belong to the run. -/
def Search.pages (s : Search) : Nat := min (64 - s.offset) s.pagesLeft

/-- The pages of the run in the current word are free in the half the search sees. -/
def WordFree (a : MemoryAllocator) (s : Search) : Prop :=
  ((a.bitmap s.entryIdx).setWidth 32).setWidth 64 &&& convertToMask s.pages s.offset = 0#64

theorem searchRound_of_free (h : WordFree a s) :
    a.searchRound number align s = { s with
      pagesLeft := sub32 s.pagesLeft s.pages, entryIdx := u32 (s.entryIdx + 1), offset := 0 } :=
  if_pos h

theorem searchRound_of_conflict (h : ¬WordFree a s) :
    a.searchRound number align s =
      let currentPage := u32 (s.currentPage + jump (sub32 number s.pagesLeft) align)
      { currentPage, offset := currentPage % 64, entryIdx := currentPage / 64,
        pagesLeft := number } :=
  if_neg h

/-- A free word: the run grows by the pages of the word. -/
theorem SearchInv.free (h : SearchInv a number align s) (hcount : a.bitmapEntryCount < 2 ^ 26)
    (hn : number < 2 ^ 32) (hc : a.searchActive s = true) (hfree : WordFree a s) :
    SearchInv a number align (a.searchRound number align s) ∧
      (a.searchRound number align s).currentPage = s.currentPage ∧
      (a.searchRound number align s).pagesLeft < s.pagesLeft := by
  obtain ⟨hpos, hentry⟩ := searchActive_iff.mp hc
  obtain ⟨hcur, hoff⟩ := h.cursor hpos
  have hleft := h.left
  have hpages : s.pages = min (64 - s.offset) s.pagesLeft := rfl
  have hsub : sub32 s.pagesLeft s.pages = s.pagesLeft - s.pages :=
    sub32_of_le (by omega)
  have hidx : u32 (s.entryIdx + 1) = s.entryIdx + 1 := u32_of_lt (by omega)
  have hmanaged : a.managed = a.bitmapEntryCount * 64 := rfl
  have hword := (wordTest_iff (by omega)).mp hfree
  rw [searchRound_of_free hfree, hsub, hidx]
  refine ⟨⟨?_, h.aligned, h.bound, h.below, fun k hlo hhi hk => ?_, fun hl => ?_, fun _ => ?_⟩,
    rfl, ?_⟩
  · show s.pagesLeft - s.pages ≤ number
    omega
  · by_cases hold : k < s.currentPage + (number - s.pagesLeft)
    · exact h.seen k hlo hold hk
    · exact hword k (by omega) (by simp only at hhi; omega) hk
  · simp only at hl ⊢
    omega
  · simp only
    omega
  · show s.pagesLeft - s.pages < s.pagesLeft
    omega

/-- The run at `currentPage` is no candidate when its current word has a conflict. -/
theorem SearchInv.conflict_page (h : SearchInv a number align s) (hc : a.searchActive s = true)
    (hconf : ¬WordFree a s) :
    ∃ k, s.currentPage + (number - s.pagesLeft) ≤ k ∧ k < s.currentPage + number ∧
      32 ≤ k % 64 ∧ a.isClaimed k = true := by
  obtain ⟨hpos, -⟩ := searchActive_iff.mp hc
  obtain ⟨hcur, hoff⟩ := h.cursor hpos
  have hleft := h.left
  have hpages : s.pages = min (64 - s.offset) s.pagesLeft := rfl
  rw [WordFree, wordTest_iff (by omega)] at hconf
  push Not at hconf
  obtain ⟨k, hlo, hhi, hk, hclaimed⟩ := hconf
  exact ⟨k, by omega, by omega, hk, by simpa using hclaimed⟩

/-- Every candidate lies beyond the starts that a conflict makes the search jump over. -/
theorem SearchInv.candidate_ge (h : SearchInv a number (2 ^ j) s) (hj : j < 32)
    (hc : a.searchActive s = true) (hconf : ¬WordFree a s) {q : Nat}
    (hq : q ∈ a.candidates number (2 ^ j)) :
    s.currentPage + jump (number - s.pagesLeft) (2 ^ j) ≤ q ∧ s.currentPage < q := by
  obtain ⟨k, hlo, hhi, hk, hclaimed⟩ := h.conflict_page hc hconf
  have hge := h.below q hq
  -- a candidate at or below the conflicting page would contain it
  have hbeyond : k < q := by
    by_contra hle
    have := hq.2.2 k (by omega) (by omega) hk
    rw [hclaimed] at this
    exact absurd this (by decide)
  refine ⟨?_, by omega⟩
  by_contra hlt
  have hdvd : 2 ^ j ∣ q - s.currentPage := Nat.dvd_sub hq.1 h.aligned
  have := le_checked_of_lt_jump (number - s.pagesLeft) hj hdvd (by omega)
  omega

/-- A conflict: the search starts again at a later run, or wraps around. -/
theorem SearchInv.conflict (h : SearchInv a number (2 ^ j) s) (hj : j < 32)
    (hc : a.searchActive s = true) (hconf : ¬WordFree a s) :
    SearchInv a number (2 ^ j) (a.searchRound number (2 ^ j) s) := by
  have hleft := h.left
  have hbound := h.bound
  have hsub : sub32 number s.pagesLeft = number - s.pagesLeft := sub32_of_le hleft
  have hjump := jump_lt (number - s.pagesLeft) hj
  have hdvd : 2 ^ j ∣ u32 (s.currentPage + jump (number - s.pagesLeft) (2 ^ j)) := by
    refine (Nat.dvd_mod_iff (Nat.pow_dvd_pow 2 (by omega))).mpr ?_
    exact Nat.dvd_add h.aligned (dvd_jump hj)
  have hle : u32 (s.currentPage + jump (number - s.pagesLeft) (2 ^ j))
      ≤ s.currentPage + jump (number - s.pagesLeft) (2 ^ j) := Nat.mod_le _ _
  rw [searchRound_of_conflict hconf, hsub]
  refine ⟨Nat.le_refl _, hdvd, u32_lt _, fun q hq => ?_, fun k hlo hhi => ?_, fun _ => ?_,
    fun hl => absurd hl (Nat.lt_irrefl _)⟩
  · exact hle.trans (h.candidate_ge hj hc hconf hq).1
  · simp only at hlo hhi
    omega
  · simp only
    omega

theorem SearchInv.round (h : SearchInv a number (2 ^ j) s) (hj : j < 32)
    (hcount : a.bitmapEntryCount < 2 ^ 26) (hn : number < 2 ^ 32) (hc : a.searchActive s = true) :
    SearchInv a number (2 ^ j) (a.searchRound number (2 ^ j) s) := by
  by_cases hfree : WordFree a s
  · exact (h.free hcount hn hc hfree).1
  · exact h.conflict hj hc hfree

/-- A conflict that moves the search up lowers the distance to any bound above
it, which outweighs the `number` pages that are left again. -/
theorem SearchInv.conflict_variant (h : SearchInv a number align s)
    (hc : a.searchActive s = true) (hconf : ¬WordFree a s) {bound : Nat}
    (hjump : 0 < jump (number - s.pagesLeft) align)
    (hle : s.currentPage + jump (number - s.pagesLeft) align ≤ bound)
    (hfit : s.currentPage + jump (number - s.pagesLeft) align < 2 ^ 32) :
    (bound - (a.searchRound number align s).currentPage) * (number + 1)
        + (a.searchRound number align s).pagesLeft
      < (bound - s.currentPage) * (number + 1) + s.pagesLeft := by
  have hpos := (searchActive_iff.mp hc).1
  rw [searchRound_of_conflict hconf, sub32_of_le h.left]
  simp only
  rw [u32_of_lt hfit]
  have hstep : bound - (s.currentPage + jump (number - s.pagesLeft) align) + 1
      ≤ bound - s.currentPage := by omega
  have := Nat.mul_le_mul_right (number + 1) hstep
  rw [Nat.add_mul, Nat.one_mul] at this
  omega

end Round

/-! ## What the search finds -/

section Search

variable {j rounds : Nat}

theorem SearchInv.search (hj : j < 32) (hcount : a.bitmapEntryCount < 2 ^ 26)
    (hn : number < 2 ^ 32) (rounds : Nat) :
    SearchInv a number (2 ^ j) (a.search rounds number (2 ^ j)) :=
  Loop.invariant (fun _ h hc => h.round hj hcount hn hc) (.start a number (2 ^ j)) rounds

/-- A run the search settles on is the lowest candidate. -/
theorem search_found (hj : j < 32) (hcount : a.bitmapEntryCount < 2 ^ 26) (hpos : 1 ≤ number)
    (hn : number < 2 ^ 32) (hleft : (a.search rounds number (2 ^ j)).pagesLeft = 0) :
    IsLeast (a.candidates number (2 ^ j)) (a.search rounds number (2 ^ j)).currentPage := by
  have hinv := SearchInv.search (a := a) hj hcount hn rounds
  have hinside := hinv.inside (by omega)
  have hseen := hinv.seen
  rw [hleft, Nat.sub_zero] at hinside hseen
  exact ⟨⟨hinv.aligned, hinside, hseen⟩, hinv.below⟩

/-- While a candidate is left, the search is at or below it and can go on. -/
theorem SearchInv.active_of_candidate {s : Search} (h : SearchInv a number align s) {p : Nat}
    (hp : p ∈ a.candidates number align) (hleft : 0 < s.pagesLeft) (hcp : s.currentPage ≤ p) :
    a.searchActive s = true := by
  obtain ⟨hcur, -⟩ := h.cursor hleft
  have hmanaged : a.managed = a.bitmapEntryCount * 64 := rfl
  have hfit := hp.2.1
  have hle := h.left
  exact searchActive_iff.mpr ⟨hleft, by omega⟩

/-- A search that has a candidate ends, and finds a run. -/
theorem search_finds (hj : j < 32) (hcount : a.bitmapEntryCount < 2 ^ 26)
    (hn : number < 2 ^ 32) {p : Nat} (hp : p ∈ a.candidates number (2 ^ j)) {rounds : Nat}
    (hrounds : p * (number + 1) + number ≤ rounds) :
    (a.search rounds number (2 ^ j)).pagesLeft = 0 := by
  have hmanaged : a.managed = a.bitmapEntryCount * 64 := rfl
  obtain ⟨hinv, hend⟩ := Loop.variant a.searchActive (a.searchRound number (2 ^ j))
    (SearchInv a number (2 ^ j))
    (fun s => (p - s.currentPage) * (number + 1) + s.pagesLeft) (s := .start number)
    (fun s h hc => by
      refine ⟨h.round hj hcount hn hc, ?_⟩
      by_cases hfree : WordFree a s
      · obtain ⟨-, hpage, hleft⟩ := h.free hcount hn hc hfree
        rw [hpage]
        omega
      · -- a conflict moves the search up by at least one page, which outweighs `pagesLeft`
        obtain ⟨hge, hgt⟩ := h.candidate_ge hj hc hfree hp
        have hleft := h.left
        have hfit := hp.2.1
        have hle : 2 ^ j ≤ p - s.currentPage :=
          Nat.le_of_dvd (by omega) (Nat.dvd_sub hp.1 h.aligned)
        have hjump := (jump_bounds (number - s.pagesLeft) hj (by omega)).1
        exact h.conflict_variant hc hfree hjump hge (by omega))
    (.start a number (2 ^ j)) (n := rounds) (by simpa [Search.start] using hrounds)
  by_contra hne
  have := hinv.active_of_candidate hp (Nat.pos_of_ne_zero hne) (hinv.below p hp)
  exact absurd (hend.symm.trans this) (by decide)

/-- On a bitmap of at most `2 ^ 31` pages nothing overflows, and the search ends
whether or not it finds a run. -/
theorem search_ends (hj : j < 32) (hsize : a.managed ≤ 2 ^ 31) (hn : number < 2 ^ 32)
    {rounds : Nat} (hrounds : 2 ^ 32 * (number + 1) + number ≤ rounds) :
    a.searchActive (a.search rounds number (2 ^ j)) = false := by
  have hmanaged : a.managed = a.bitmapEntryCount * 64 := rfl
  have hcount : a.bitmapEntryCount < 2 ^ 26 := by omega
  have halign : 2 ^ j ≤ 2 ^ 31 := Nat.pow_le_pow_right (by decide) (by omega)
  refine (Loop.variant a.searchActive (a.searchRound number (2 ^ j))
    (SearchInv a number (2 ^ j))
    (fun s => (2 ^ 32 - s.currentPage) * (number + 1) + s.pagesLeft) (s := .start number)
    (fun s h hc => ?_) (.start a number (2 ^ j)) (n := rounds)
    (by simpa [Search.start] using hrounds)).2
  refine ⟨h.round hj hcount hn hc, ?_⟩
  by_cases hfree : WordFree a s
  · obtain ⟨-, hpage, hleft⟩ := h.free hcount hn hc hfree
    rw [hpage]
    omega
  · obtain ⟨hpos, hentry⟩ := searchActive_iff.mp hc
    obtain ⟨hcur, hoff⟩ := h.cursor hpos
    have hleft := h.left
    obtain ⟨hjump, hlt⟩ := jump_bounds (number - s.pagesLeft) hj (by omega)
    exact h.conflict_variant hc hfree hjump (by omega) (by omega)

end Search

end MemoryAllocator
end PiVOS
