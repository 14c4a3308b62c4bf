-- SUMMARY: What the allocator's loops do to the bitmap, page by page.
import PiVOS.Memory.Allocator

/-!
# Pages and bits

The word operations of the allocator restated for pages: which bits a mask
sets or clears, what a whole run of rounds does, and which page the first-fit
scan finds.
-/

namespace PiVOS
namespace MemoryAllocator

variable {a : MemoryAllocator}

/-! ## One word -/

theorem convertToMask_eq {number : Nat} (offset : Nat) (h : number ≤ 64) :
    convertToMask number offset = Word.runMask 64 number offset := by
  rw [convertToMask, Word.runMask, pagesPerEntry, sub32_of_le h]
  rfl

theorem pageBit_or_mask (bitmap : Nat → BitVec 64) (entry : Nat) {number offset : Nat}
    (h : number + offset ≤ 64) (k : Nat) :
    pageBit (Function.update bitmap entry (bitmap entry ||| convertToMask number offset)) k
      = (pageBit bitmap k ||
          decide (entry * 64 + offset ≤ k ∧ k < entry * 64 + offset + number)) := by
  rw [convertToMask_eq _ (by omega)]
  unfold pageBit
  by_cases hk : k / 64 = entry
  · rw [hk, Function.update_self, BitVec.getMsbD_or, Word.getMsbD_runMask (by omega) (by omega)]
    congr 2
    apply propext
    constructor <;> rintro ⟨h₁, h₂⟩ <;> constructor <;> omega
  · rw [Function.update_of_ne hk]
    have : ¬(entry * 64 + offset ≤ k ∧ k < entry * 64 + offset + number) := by omega
    rw [decide_eq_false this, Bool.or_false]

theorem pageBit_and_not_mask (bitmap : Nat → BitVec 64) (entry : Nat) {number offset : Nat}
    (hn : number ≤ 64) (ho : offset < 64) (k : Nat) :
    pageBit (Function.update bitmap entry (bitmap entry &&& ~~~convertToMask number offset)) k
      = (pageBit bitmap k && !decide (entry * 64 + offset ≤ k ∧
          k < min (entry * 64 + offset + number) (entry * 64 + 64))) := by
  rw [convertToMask_eq _ hn]
  unfold pageBit
  by_cases hk : k / 64 = entry
  · rw [hk, Function.update_self, BitVec.getMsbD_and, BitVec.getMsbD_not,
      Word.getMsbD_runMask hn (by omega)]
    have hlt : k % 64 < 64 := by omega
    simp only [hlt, decide_true, Bool.true_and]
    congr 3
    apply propext
    constructor <;> rintro ⟨h₁, h₂⟩ <;> constructor <;> omega
  · rw [Function.update_of_ne hk]
    have : ¬(entry * 64 + offset ≤ k ∧
        k < min (entry * 64 + offset + number) (entry * 64 + 64)) := by omega
    rw [decide_eq_false this, Bool.not_false, Bool.and_true]

/-! ## Claiming a run -/

/-- Where the claiming loop stands after `done` of the pages from `p` on. -/
structure ClaimInv (bitmap : Nat → BitVec 64) (p count done : Nat) (s : RunCursor) : Prop where
  total : done + s.count = count
  cursor : 0 < s.count → s.entry * 64 + s.offset = p + done ∧ s.offset < 64
  pages : s.pages = min (64 - s.offset) s.count
  bits : ∀ k, pageBit s.bitmap k = (pageBit bitmap k || decide (p ≤ k ∧ k < p + done))

theorem RunCursor.claimRound_bitmap (s : RunCursor) :
    s.claimRound.bitmap = Function.update s.bitmap s.entry
      (s.bitmap s.entry ||| convertToMask s.pages s.offset) := rfl

theorem RunCursor.claimRound_pages (s : RunCursor) :
    s.claimRound.pages = min (64 - s.claimRound.offset) s.claimRound.count := rfl

theorem RunCursor.claimRound_count {s : RunCursor} (h : s.pages ≤ s.count) :
    s.claimRound.count = s.count - s.pages := sub32_of_le h

theorem RunCursor.claimRound_entry {s : RunCursor} (h : s.entry + 1 < 2 ^ 32) :
    s.claimRound.entry = s.entry + 1 := u32_of_lt h

@[simp] theorem RunCursor.claimRound_offset (s : RunCursor) : s.claimRound.offset = 0 := rfl

theorem ClaimInv.round {bitmap : Nat → BitVec 64} {p count done : Nat} {s : RunCursor}
    (h : ClaimInv bitmap p count done s) (hfit : p + count < 2 ^ 33) (hc : s.active = true) :
    ClaimInv bitmap p count (done + s.pages) s.claimRound ∧ s.claimRound.count < s.count := by
  have hpos : 0 < s.count := by simpa [RunCursor.active] using hc
  obtain ⟨hcur, hoff⟩ := h.cursor hpos
  have htot := h.total
  have hpages := h.pages
  have hcount := RunCursor.claimRound_count (s := s) (by omega)
  have hentry := RunCursor.claimRound_entry (s := s) (by omega)
  refine ⟨⟨by omega, fun hleft => ⟨?_, by simp⟩, s.claimRound_pages, fun k => ?_⟩, by omega⟩
  · -- rounds remain only when this one reached the end of its word
    rw [hentry, RunCursor.claimRound_offset]
    omega
  · have hmask : s.pages + s.offset ≤ 64 := by omega
    rw [RunCursor.claimRound_bitmap, pageBit_or_mask _ _ hmask, h.bits, Bool.or_assoc, hcur]
    congr 1
    rw [← Bool.decide_or]
    congr 1
    apply propext
    constructor
    · rintro (⟨h₁, h₂⟩ | ⟨h₁, h₂⟩) <;> constructor <;> omega
    · rintro ⟨h₁, h₂⟩
      by_cases hk : k < p + done
      · exact .inl ⟨h₁, hk⟩
      · exact .inr ⟨by omega, by omega⟩

theorem ClaimInv.start (a : MemoryAllocator) (p count : Nat) :
    ClaimInv a.bitmap p count 0 (.start a p count) := by
  refine ⟨by simp [RunCursor.start], fun _ => ?_, rfl, fun k => by simp [RunCursor.start]⟩
  simp only [RunCursor.start, pagesPerEntry]
  omega

/-- The claiming loop ends within `count` rounds, with all of the run claimed. -/
theorem claimLoop_spec {p count : Nat} (hfit : p + count < 2 ^ 33) :
    let s := loopWhile RunCursor.active RunCursor.claimRound count (.start a p count)
    ClaimInv a.bitmap p count count s ∧ s.active = false := by
  obtain ⟨⟨done, hinv⟩, hend⟩ := Loop.variant RunCursor.active RunCursor.claimRound
    (fun s => ∃ done, ClaimInv a.bitmap p count done s) (fun s => s.count)
    (fun s ⟨done, h⟩ hc => ⟨⟨_, (h.round hfit hc).1⟩, (h.round hfit hc).2⟩)
    ⟨0, .start a p count⟩ (Nat.le_refl count)
  have hzero := hinv.total
  have hcount : (loopWhile RunCursor.active RunCursor.claimRound count (.start a p count)).count = 0 := by
    simpa [RunCursor.active] using hend
  obtain rfl : done = count := by omega
  exact ⟨hinv, hend⟩

/-- Claiming a run sets the bits of exactly its pages. -/
theorem isClaimed_claimMultiplePages {p count : Nat} (hfit : p + count < 2 ^ 32) (k : Nat) :
    (a.claimMultiplePages p count).isClaimed k
      = (a.isClaimed k || decide (p ≤ k ∧ k < p + count)) :=
  (claimLoop_spec (hfit.trans (by decide))).1.bits k

@[simp] theorem claimMultiplePages_bitmapEntryCount (p count : Nat) :
    (a.claimMultiplePages p count).bitmapEntryCount = a.bitmapEntryCount := rfl

@[simp] theorem claimMultiplePages_pageSize (p count : Nat) :
    (a.claimMultiplePages p count).pageSize = a.pageSize := rfl

theorem isClaimed_claimSpecificPage (p k : Nat) :
    (a.claimSpecificPage p).isClaimed k = (a.isClaimed k || decide (k = p)) := by
  have h : (a.claimSpecificPage p).isClaimed k = _ :=
    pageBit_or_mask a.bitmap (p / 64) (show 1 + p % 64 ≤ 64 by omega) k
  rw [h, isClaimed]
  congr 2
  apply propext
  omega

@[simp] theorem claimSpecificPage_bitmapEntryCount (p : Nat) :
    (a.claimSpecificPage p).bitmapEntryCount = a.bitmapEntryCount := rfl

@[simp] theorem claimSpecificPage_pageSize (p : Nat) :
    (a.claimSpecificPage p).pageSize = a.pageSize := rfl

/-! ## Freeing a run

`offset` is never reset, so the later rounds of a run that starts inside a word
clear other bits than those of the run. Runs that begin at a word or end in their
first word are cleared exactly. -/

/-- The run begins at a word or ends in its first word. -/
def RunInStep (p count : Nat) : Prop := p % 64 = 0 ∨ p % 64 + count ≤ 64

theorem RunCursor.freeRound_bitmap (s : RunCursor) :
    s.freeRound.bitmap = Function.update s.bitmap s.entry
      (s.bitmap s.entry &&& ~~~convertToMask s.pages s.offset) := rfl

theorem RunCursor.freeRound_count {s : RunCursor} (h : s.pages ≤ s.count) :
    s.freeRound.count = s.count - s.pages := sub32_of_le h

theorem RunCursor.freeRound_entry {s : RunCursor} (h : s.entry + 1 < 2 ^ 32) :
    s.freeRound.entry = s.entry + 1 := u32_of_lt h

@[simp] theorem RunCursor.freeRound_offset (s : RunCursor) : s.freeRound.offset = s.offset := rfl

theorem RunCursor.freeRound_pages (s : RunCursor) :
    s.freeRound.pages = min 64 s.freeRound.count := rfl

/-- The pages whose bits the loop clears: those of the run in its first word, and in
every later word as many as the run has there, from the same place on. -/
def Cleared (p count k : Nat) : Prop :=
  (k / 64 = p / 64 ∧ p ≤ k ∧ k < p + count) ∨
    (p / 64 < k / 64 ∧ k / 64 * 64 < p + count ∧ p % 64 ≤ k % 64 ∧
      k % 64 < p % 64 + min 64 (p + count - k / 64 * 64))

instance (p count k : Nat) : Decidable (Cleared p count k) := inferInstanceAs (Decidable (_ ∨ _))

theorem cleared_zero (p k : Nat) : ¬Cleared p 0 k := by
  rintro (⟨-, h⟩ | ⟨h₁, h₂, -⟩) <;> omega

/-- Where the freeing loop stands after `done` of the pages from `p` on. -/
structure FreeInv (bitmap : Nat → BitVec 64) (p count done : Nat) (s : RunCursor) : Prop where
  total : done + s.count = count
  offset : s.offset = p % 64
  first : done = 0 → s.entry = p / 64 ∧ s.pages = min (64 - p % 64) s.count
  later : 0 < done → 0 < s.count → s.entry * 64 = p + done ∧ s.pages = min 64 s.count
  bits : ∀ k, pageBit s.bitmap k = (pageBit bitmap k && !decide (Cleared p done k))

theorem FreeInv.round {bitmap : Nat → BitVec 64} {p count done : Nat} {s : RunCursor}
    (h : FreeInv bitmap p count done s) (hfit : p + count < 2 ^ 32) (hc : s.active = true) :
    FreeInv bitmap p count (done + s.pages) s.freeRound ∧ s.freeRound.count < s.count := by
  have hpos : 0 < s.count := by simpa [RunCursor.active] using hc
  have hoff := h.offset
  have htot := h.total
  have hcursor : (done = 0 ∧ s.entry = p / 64 ∧ s.pages = min (64 - p % 64) s.count) ∨
      (0 < done ∧ s.entry * 64 = p + done ∧ s.pages = min 64 s.count) := by
    rcases Nat.eq_zero_or_pos done with hzero | hdone
    · exact .inl ⟨hzero, h.first hzero⟩
    · exact .inr ⟨hdone, h.later hdone hpos⟩
  have hcount := RunCursor.freeRound_count (s := s) (by omega)
  have hentry := RunCursor.freeRound_entry (s := s) (by omega)
  refine ⟨⟨by omega, hoff, fun hzero => by omega, fun _ hleft => ⟨?_, s.freeRound_pages⟩, fun k => ?_⟩,
    by omega⟩
  · rw [hentry]
    omega
  · rw [RunCursor.freeRound_bitmap, pageBit_and_not_mask _ _ (by omega) (by omega), h.bits,
      Bool.and_assoc, ← Bool.not_or, ← Bool.decide_or]
    congr 3
    apply propext
    -- below the word of this round nothing changes, and above it nothing was cleared yet
    unfold Cleared
    rcases hcursor with ⟨rfl, hword, hpages⟩ | ⟨hdone, hword, hpages⟩
    · omega
    · rcases Nat.lt_trichotomy (k / 64) s.entry with hlt | heq | hgt <;> omega

/-- The freeing loop ends within `count` rounds. -/
theorem freeLoop_spec {p count : Nat} (hfit : p + count < 2 ^ 32) :
    let s := loopWhile RunCursor.active RunCursor.freeRound count (.start a p count)
    FreeInv a.bitmap p count count s ∧ s.active = false := by
  have hstart : ∃ done, FreeInv a.bitmap p count done (.start a p count) :=
    ⟨0, ⟨by simp [RunCursor.start], rfl, fun _ => ⟨rfl, rfl⟩, fun hpos => absurd hpos (by decide),
      fun k => by simp [RunCursor.start, cleared_zero]⟩⟩
  obtain ⟨⟨done, hinv⟩, hend⟩ := Loop.variant RunCursor.active RunCursor.freeRound
    (fun s => ∃ done, FreeInv a.bitmap p count done s) (fun s => s.count)
    (fun s ⟨done, h⟩ hc => ⟨⟨_, (h.round hfit hc).1⟩, (h.round hfit hc).2⟩)
    hstart (Nat.le_refl count)
  have hzero := hinv.total
  have hcount : (loopWhile RunCursor.active RunCursor.freeRound count (.start a p count)).count = 0 := by
    simpa [RunCursor.active] using hend
  obtain rfl : done = count := by omega
  exact ⟨hinv, hend⟩

/-- Freeing a run clears these bits and no others. -/
theorem isClaimed_freeMultiplePages_eq {p count : Nat} (hfit : p + count < 2 ^ 32) (k : Nat) :
    (a.freeMultiplePages p count).isClaimed k = (a.isClaimed k && !decide (Cleared p count k)) :=
  (freeLoop_spec hfit).1.bits k

/-- A run in step is cleared exactly. -/
theorem cleared_iff_of_runInStep {p count : Nat} (hstep : RunInStep p count) (k : Nat) :
    Cleared p count k ↔ p ≤ k ∧ k < p + count := by
  unfold Cleared
  unfold RunInStep at hstep
  rcases Nat.lt_trichotomy (k / 64) (p / 64) with hlt | heq | hgt <;> omega

theorem isClaimed_freeMultiplePages {p count : Nat} (hstep : RunInStep p count)
    (hfit : p + count < 2 ^ 32) (k : Nat) :
    (a.freeMultiplePages p count).isClaimed k
      = (a.isClaimed k && !decide (p ≤ k ∧ k < p + count)) := by
  rw [isClaimed_freeMultiplePages_eq hfit, decide_eq_decide.mpr (cleared_iff_of_runInStep hstep k)]

@[simp] theorem freeMultiplePages_bitmapEntryCount (p count : Nat) :
    (a.freeMultiplePages p count).bitmapEntryCount = a.bitmapEntryCount := rfl

@[simp] theorem freeMultiplePages_pageSize (p count : Nat) :
    (a.freeMultiplePages p count).pageSize = a.pageSize := rfl

@[simp] theorem freeSpecificPage_bitmapEntryCount (p : Nat) :
    (a.freeSpecificPage p).bitmapEntryCount = a.bitmapEntryCount := rfl

@[simp] theorem freeSpecificPage_pageSize (p : Nat) :
    (a.freeSpecificPage p).pageSize = a.pageSize := rfl

theorem isClaimed_freeSpecificPage (p k : Nat) :
    (a.freeSpecificPage p).isClaimed k = (a.isClaimed k && !decide (k = p)) := by
  have h : (a.freeSpecificPage p).isClaimed k = _ :=
    pageBit_and_not_mask a.bitmap (p / 64) (show 1 ≤ 64 by omega) (show p % 64 < 64 by omega) k
  rw [h, isClaimed]
  congr 3
  apply propext
  omega

/-! ## Page numbers of addresses -/

theorem getPageNumber_eq {addr p : Nat} (hpos : 0 < a.pageSize) (hp : p < 2 ^ 32)
    (h : clearKernelSpace addr = p * a.pageSize) : a.getPageNumber addr = p := by
  rw [getPageNumber, h, Nat.mul_div_cancel _ hpos, u32_of_lt hp]

theorem rangePages_eq {fromAddr toAddr p count : Nat} (hpos : 0 < a.pageSize) (hcount : 0 < count)
    (hp : p + count < 2 ^ 32) (hfrom : clearKernelSpace fromAddr = p * a.pageSize)
    (hto : clearKernelSpace toAddr = (p + count) * a.pageSize) :
    a.rangePages fromAddr toAddr = count := by
  rw [rangePages, getPageNumber_eq hpos (by omega) hfrom, getPageNumber_eq hpos hp hto,
    sub32_of_le (by omega)]
  have : p + count - p ≠ 0 := by omega
  simp only [this, if_false]
  omega

/-! ## What the calls leave alone -/

@[simp] theorem claimRange_bitmapEntryCount (fromAddr toAddr : Nat) :
    (a.claimRange fromAddr toAddr).bitmapEntryCount = a.bitmapEntryCount := by
  rw [claimRange, claimMultiplePages_bitmapEntryCount]

@[simp] theorem claimRange_pageSize (fromAddr toAddr : Nat) :
    (a.claimRange fromAddr toAddr).pageSize = a.pageSize := by
  rw [claimRange, claimMultiplePages_pageSize]

@[simp] theorem freePage_bitmapEntryCount (addr : Nat) :
    (a.freePage addr).bitmapEntryCount = a.bitmapEntryCount := by
  rw [freePage, freeSpecificPage_bitmapEntryCount]

@[simp] theorem freePage_pageSize (addr : Nat) : (a.freePage addr).pageSize = a.pageSize := by
  rw [freePage, freeSpecificPage_pageSize]

@[simp] theorem freePages_bitmapEntryCount (addr count : Nat) :
    (a.freePages addr count).bitmapEntryCount = a.bitmapEntryCount := by
  rw [freePages, freeMultiplePages_bitmapEntryCount]

@[simp] theorem freePages_pageSize (addr count : Nat) :
    (a.freePages addr count).pageSize = a.pageSize := by
  rw [freePages, freeMultiplePages_pageSize]

@[simp] theorem freeRange_bitmapEntryCount (fromAddr toAddr : Nat) :
    (a.freeRange fromAddr toAddr).bitmapEntryCount = a.bitmapEntryCount := by
  rw [freeRange, freeMultiplePages_bitmapEntryCount]

@[simp] theorem freeRange_pageSize (fromAddr toAddr : Nat) :
    (a.freeRange fromAddr toAddr).pageSize = a.pageSize := by
  rw [freeRange, freeMultiplePages_pageSize]

/-! ## First fit -/

theorem findEntry_some {n i e : Nat} (h : a.findEntry n i = some e) :
    i ≤ e ∧ e < i + n ∧ a.bitmap e ≠ pageFull ∧ ∀ j, i ≤ j → j < e → a.bitmap j = pageFull := by
  induction n generalizing i with
  | zero => simp [findEntry] at h
  | succ n ih =>
    rw [findEntry] at h
    split at h
    · rename_i hfull
      obtain ⟨h₁, h₂, h₃, h₄⟩ := ih h
      refine ⟨by omega, by omega, h₃, fun j hj hje => ?_⟩
      rcases Nat.eq_or_lt_of_le hj with rfl | hlt
      · exact hfull
      · exact h₄ j hlt hje
    · rename_i hfree
      obtain rfl : i = e := by simpa using h
      exact ⟨Nat.le_refl _, by omega, hfree, fun j hj hje => absurd hj (by omega)⟩

theorem findEntry_none {n i : Nat} (h : a.findEntry n i = none) :
    ∀ j, i ≤ j → j < i + n → a.bitmap j = pageFull := by
  induction n generalizing i with
  | zero => intro j h₁ h₂; omega
  | succ n ih =>
    rw [findEntry] at h
    split at h
    · rename_i hfull
      intro j h₁ h₂
      rcases Nat.eq_or_lt_of_le h₁ with rfl | hlt
      · exact hfull
      · exact ih h j hlt (by omega)
    · simp at h

theorem isClaimed_of_full {k : Nat} (h : a.bitmap (k / 64) = pageFull) : a.isClaimed k = true := by
  have hk : k % 64 < 64 := Nat.mod_lt _ (by decide)
  rw [isClaimed, pageBit, h, pageFull, BitVec.getMsbD_not, BitVec.getMsbD_zero]
  simp [hk]

/-- The scan stops at the lowest free page. -/
theorem firstFreePage_some {p : Nat} (hsize : a.managed ≤ 2 ^ 32)
    (h : a.firstFreePage = some p) :
    p < a.managed ∧ a.isClaimed p = false ∧ ∀ k < p, a.isClaimed k = true := by
  obtain ⟨e, he, hp⟩ := Option.map_eq_some_iff.mp h
  obtain ⟨-, hlt, hne, hfull⟩ := findEntry_some he
  have hnz : ~~~a.bitmap e ≠ 0#64 := fun h0 => hne (by rw [← BitVec.not_not (b := a.bitmap e), h0, pageFull])
  obtain ⟨hclz, hbit⟩ := Word.getMsbD_clz hnz
  simp only [managed, pagesPerEntry] at hsize ⊢
  rw [u32_of_lt (by simp only [pagesPerEntry]; omega)] at hp
  simp only [pagesPerEntry] at hp
  have hdiv : p / 64 = e := by omega
  have hmod : p % 64 = (~~~a.bitmap e).clz.toNat := by omega
  refine ⟨by omega, ?_, fun k hk => ?_⟩
  · rw [isClaimed, pageBit, hdiv, hmod]
    rw [BitVec.getMsbD_not] at hbit
    simpa [hclz] using hbit
  · rcases Nat.lt_or_ge (k / 64) e with hlow | hhigh
    · exact isClaimed_of_full (hfull _ (Nat.zero_le _) hlow)
    · have hke : k / 64 = e := by omega
      have hlow : k % 64 < (~~~a.bitmap e).clz.toNat := by omega
      have := Word.getMsbD_of_lt_clz hlow
      have hk64 : k % 64 < 64 := by omega
      rw [BitVec.getMsbD_not] at this
      rw [isClaimed, pageBit, hke]
      simpa [hk64] using this

theorem firstFreePage_none (h : a.firstFreePage = none) :
    ∀ k < a.managed, a.isClaimed k = true := by
  intro k hk
  have he : a.findEntry a.bitmapEntryCount 0 = none := by simpa [firstFreePage] using h
  simp only [managed, pagesPerEntry] at hk
  exact isClaimed_of_full (findEntry_none he _ (Nat.zero_le _) (by omega))

theorem claimPage_some {p : Nat} (h : a.firstFreePage = some p) :
    a.claimPage = (a.getAddress p, a.claimSpecificPage p) := by
  simp [claimPage, h]

theorem claimPage_none (h : a.firstFreePage = none) : a.claimPage = (null, a) := by
  simp [claimPage, h]

end MemoryAllocator
end PiVOS
