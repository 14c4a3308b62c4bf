-- SUMMARY: Exclusive ownership of pages over whole runs of the page allocator.
import PiVOS.Memory.AllocatorPages
import Mathlib.Logic.Relation
import Mathlib.Data.List.Perm.Basic

/-!
# Who owns which page

The allocator together with a ledger of the blocks it has given out. A step is
one call of its interface; the ledger records what the caller was told, so a
run in which the bitmap and the ledger agree is one in which nobody is handed
somebody else's pages.
-/

namespace PiVOS
namespace MemoryAllocator

/-! ## Blocks and the ledger -/

/-- `count` pages from page `first` on. -/
structure Block where
  first : Nat
  count : Nat
deriving DecidableEq

def Block.Contains (b : Block) (k : Nat) : Prop := b.first ≤ k ∧ k < b.first + b.count

def Block.Apart (b c : Block) : Prop := ∀ k, b.Contains k → ¬c.Contains k

instance (b : Block) (k : Nat) : Decidable (b.Contains k) :=
  inferInstanceAs (Decidable (_ ∧ _))

theorem Block.decide_contains (b : Block) (k : Nat) :
    decide (b.Contains k) = decide (b.first ≤ k ∧ k < b.first + b.count) := rfl

theorem Block.Apart.symm {b c : Block} (h : b.Apart c) : c.Apart b := fun k hc hb => h k hb hc

/-- The allocator, the ranges reserved at boot, and the blocks obtained since and
not given back. -/
structure Ledger where
  allocator : MemoryAllocator
  reserved : List Block
  owned : List Block

namespace Ledger

def blocks (w : Ledger) : List Block := w.owned ++ w.reserved

/-- What a claim of `number` pages leaves behind; its result `NULL` gives the
caller nothing. -/
def obtain (w : Ledger) (number : Nat) (result : Nat × MemoryAllocator) : Ledger :=
  { w with
    allocator := result.2
    owned := if result.1 = null then w.owned
      else ⟨w.allocator.getPageNumber result.1, number⟩ :: w.owned }

def giveBack (w : Ledger) (b : Block) (allocator : MemoryAllocator) : Ledger :=
  { w with allocator, owned := w.owned.erase b }

/-- The pages between two addresses. -/
def range (w : Ledger) (fromAddr toAddr : Nat) : Block :=
  ⟨clearKernelSpace fromAddr / w.allocator.pageSize,
    clearKernelSpace toAddr / w.allocator.pageSize - clearKernelSpace fromAddr / w.allocator.pageSize⟩

/-- A page-aligned, nonempty range inside the managed pages. -/
structure ValidRange (w : Ledger) (fromAddr toAddr : Nat) : Prop where
  fromAligned : w.allocator.pageSize ∣ fromAddr
  toAligned : w.allocator.pageSize ∣ toAddr
  nonempty : clearKernelSpace fromAddr < clearKernelSpace toAddr
  inside : clearKernelSpace toAddr ≤ w.allocator.managed * w.allocator.pageSize

/-- The address names the first page of the block. -/
def Names (w : Ledger) (addr : Nat) (b : Block) : Prop :=
  clearKernelSpace addr = b.first * w.allocator.pageSize

/-- The property at stake: a bit is set just when its page is reserved or owned,
and no two of these blocks share a page. -/
structure Exclusive (w : Ledger) : Prop where
  bits : ∀ k < w.allocator.managed, w.allocator.isClaimed k = true ↔ ∃ b ∈ w.blocks, b.Contains k
  apart : w.blocks.Pairwise Block.Apart

end Ledger

/-! ## Steps -/

/-- The calls of the allocator's interface. -/
inductive Call
  | claimPage
  | claimPages (number align : Nat)
  | claimRange (fromAddr toAddr : Nat)
  | freePage (addr : Nat)
  | freePages (addr count : Nat)
  | freeRange (fromAddr toAddr : Nat)

/-- One call that its caller may make: claims ask for pages, frees are applied to
exactly a block that is owned. -/
inductive Step : Ledger → Call → Ledger → Prop
  | claimPage (w : Ledger) : Step w .claimPage (w.obtain 1 w.allocator.claimPage)
  | claimPages {w : Ledger} {rounds number j : Nat} {result : Nat × MemoryAllocator}
      (hpos : 1 ≤ number) (hnumber : number < 2 ^ 32) (halign : j < 32)
      (hrun : w.allocator.claimPages rounds number (2 ^ j) = some result) :
      Step w (.claimPages number (2 ^ j)) (w.obtain number result)
  | claimRange {w : Ledger} {fromAddr toAddr : Nat} (hvalid : w.ValidRange fromAddr toAddr)
      (hfree : ∀ b ∈ w.blocks, (w.range fromAddr toAddr).Apart b) :
      Step w (.claimRange fromAddr toAddr)
        { w with
          allocator := w.allocator.claimRange fromAddr toAddr
          owned := w.range fromAddr toAddr :: w.owned }
  | freePage {w : Ledger} {addr : Nat} {b : Block} (hb : b ∈ w.owned) (hone : b.count = 1)
      (haddr : w.Names addr b) :
      Step w (.freePage addr) (w.giveBack b (w.allocator.freePage addr))
  | freePages {w : Ledger} {addr : Nat} {b : Block} (hb : b ∈ w.owned) (haddr : w.Names addr b) :
      Step w (.freePages addr b.count) (w.giveBack b (w.allocator.freePages addr b.count))
  | freeRange {w : Ledger} {fromAddr toAddr : Nat} {b : Block} (hb : b ∈ w.owned)
      (hfrom : w.Names fromAddr b) (hto : w.Names toAddr ⟨b.first + b.count, 0⟩) :
      Step w (.freeRange fromAddr toAddr)
        (w.giveBack b (w.allocator.freeRange fromAddr toAddr))

/-- The bitmap shapes and blocks on which the call does its work: a search that
stops at a free run (or at a run at page 0 that is taken altogether, which it
reports as a failure), and frees of runs in step with the words. -/
def Call.Safe (w : Ledger) : Call → Prop
  | .claimPages number align =>
    (number = 1 ∧ align = 1) ∨ ∀ p, IsLeast (w.allocator.candidates number align) p →
      w.allocator.FreeRun number p ∨ (p = 0 ∧ ∀ k < number, w.allocator.isClaimed k = true)
  | .freePages addr count => RunInStep (w.allocator.getPageNumber addr) count
  | .freeRange fromAddr toAddr =>
    RunInStep (w.allocator.getPageNumber fromAddr) (w.allocator.rangePages fromAddr toAddr)
  | _ => True

def SafeStep (w w' : Ledger) : Prop := ∃ c, Step w c w' ∧ c.Safe w

def AnyStep (w w' : Ledger) : Prop := ∃ c, Step w c w'

/-! ## The invariant -/

/-- What a run keeps: the ledger is right, its blocks are nonempty and managed,
and page 0 is taken, so that no block begins at `NULL`. -/
structure Sound (w : Ledger) : Prop extends w.Exclusive where
  entries : w.allocator.bitmapEntryCount < 2 ^ 26
  pageSize : 0 < w.allocator.pageSize
  pageDvd : w.allocator.pageSize ∣ 2 ^ 48
  addresses : w.allocator.managed * w.allocator.pageSize ≤ 2 ^ 48
  inside : ∀ b ∈ w.blocks, 0 < b.count ∧ b.first + b.count ≤ w.allocator.managed
  pageZero : ∃ b ∈ w.reserved, b.Contains 0

section Invariant

variable {w : Ledger} {a : MemoryAllocator} {b : Block}

theorem Sound.managed_lt (h : Sound w) : w.allocator.managed < 2 ^ 32 := by
  have hmanaged : w.allocator.managed = w.allocator.bitmapEntryCount * 64 := rfl
  have := h.entries
  omega

/-- Adding a block of free pages whose bits are then set. -/
theorem Sound.add (h : Sound w) (hentries : a.bitmapEntryCount = w.allocator.bitmapEntryCount)
    (hsize : a.pageSize = w.allocator.pageSize) (hcount : 0 < b.count)
    (hfree : w.allocator.FreeRun b.count b.first)
    (hbits : ∀ k, a.isClaimed k = (w.allocator.isClaimed k || decide (b.Contains k))) :
    Sound { w with allocator := a, owned := b :: w.owned } := by
  have hmanaged : a.managed = w.allocator.managed := by rw [managed, hentries, managed]
  refine ⟨⟨fun k hk => ?_, ?_⟩, ?_, ?_, ?_, ?_, ?_, h.pageZero⟩
  · rw [hbits, Bool.or_eq_true, decide_eq_true_eq, h.bits k (hmanaged ▸ hk)]
    simp only [Ledger.blocks, List.cons_append, List.mem_cons, exists_eq_or_imp]
    exact or_comm
  · refine List.pairwise_cons.mpr ⟨fun c hc k hbk hck => ?_, h.apart⟩
    have hk : k < w.allocator.managed := lt_of_lt_of_le hbk.2 hfree.1
    have := (h.bits k hk).mpr ⟨c, hc, hck⟩
    rw [hfree.2 k hbk.1 hbk.2] at this
    exact absurd this (by decide)
  · rw [hentries]; exact h.entries
  · rw [hsize]; exact h.pageSize
  · rw [hsize]; exact h.pageDvd
  · rw [hmanaged, hsize]; exact h.addresses
  · rw [hmanaged]
    intro c hc
    rcases List.mem_cons.mp hc with rfl | hc
    · exact ⟨hcount, hfree.1⟩
    · exact h.inside c hc

/-- Dropping an owned block whose bits are then cleared. -/
theorem Sound.remove (h : Sound w) (hentries : a.bitmapEntryCount = w.allocator.bitmapEntryCount)
    (hsize : a.pageSize = w.allocator.pageSize) (hb : b ∈ w.owned)
    (hbits : ∀ k, a.isClaimed k = (w.allocator.isClaimed k && !decide (b.Contains k))) :
    Sound (w.giveBack b a) := by
  have hmanaged : a.managed = w.allocator.managed := by rw [managed, hentries, managed]
  have hperm : w.blocks.Perm (b :: (w.giveBack b a).blocks) :=
    (List.perm_cons_erase hb).append_right w.reserved
  have hpair := (hperm.pairwise_iff fun hbc => Block.Apart.symm hbc).mp h.apart
  obtain ⟨hapart, hrest⟩ := List.pairwise_cons.mp hpair
  refine ⟨⟨fun k hk => ?_, hrest⟩, ?_, ?_, ?_, ?_, fun c hc => ?_, h.pageZero⟩
  · have hmem : (∃ c ∈ w.blocks, c.Contains k) ↔
        b.Contains k ∨ ∃ c ∈ (w.giveBack b a).blocks, c.Contains k := by
      simp only [hperm.mem_iff, List.mem_cons, exists_eq_or_imp]
    show a.isClaimed k = true ↔ _
    rw [hbits, Bool.and_eq_true, h.bits k (hmanaged ▸ hk), hmem, Bool.not_eq_true',
      decide_eq_false_iff_not]
    constructor
    · rintro ⟨hor, hnot⟩
      exact hor.resolve_left hnot
    · rintro ⟨c, hc, hck⟩
      exact ⟨.inr ⟨c, hc, hck⟩, fun hbk => hapart c hc k hbk hck⟩
  · show a.bitmapEntryCount < _
    rw [hentries]; exact h.entries
  · show 0 < a.pageSize
    rw [hsize]; exact h.pageSize
  · show a.pageSize ∣ _
    rw [hsize]; exact h.pageDvd
  · show a.managed * a.pageSize ≤ _
    rw [hmanaged, hsize]; exact h.addresses
  · show _ ∧ _ ≤ a.managed
    rw [hmanaged]
    exact h.inside c (hperm.mem_iff.mpr (List.mem_cons_of_mem _ hc))

/-- Nothing depends on how the words hold the bits. -/
theorem Sound.congr (h : Sound w) (hentries : a.bitmapEntryCount = w.allocator.bitmapEntryCount)
    (hsize : a.pageSize = w.allocator.pageSize)
    (hbits : ∀ k, a.isClaimed k = w.allocator.isClaimed k) :
    Sound { w with allocator := a } := by
  have hmanaged : a.managed = w.allocator.managed := by rw [managed, hentries, managed]
  refine ⟨⟨fun k hk => ?_, h.apart⟩, hentries ▸ h.entries, hsize ▸ h.pageSize, hsize ▸ h.pageDvd, ?_, ?_,
    h.pageZero⟩
  · rw [hbits]
    exact h.bits k (hmanaged ▸ hk)
  · rw [hmanaged, hsize]
    exact h.addresses
  · rw [hmanaged]
    exact h.inside

/-! ## Addresses of pages -/

theorem Sound.getAddress (h : Sound w) {p : Nat} (hp : p < w.allocator.managed) :
    w.allocator.getAddress p = p * w.allocator.pageSize ∧
      p * w.allocator.pageSize < 2 ^ 48 := by
  have hlt : p * w.allocator.pageSize < w.allocator.managed * w.allocator.pageSize :=
    Nat.mul_lt_mul_of_pos_right hp h.pageSize
  have := h.addresses
  have h48 : p * w.allocator.pageSize < 2 ^ 48 := by omega
  exact ⟨u64_of_lt (by omega), h48⟩

/-- The address of a page that is not page 0 is no `NULL` and names the page. -/
theorem Sound.names (h : Sound w) {p : Nat} (hp : p < w.allocator.managed) (hpos : 0 < p) :
    w.allocator.getAddress p ≠ null ∧ w.allocator.getPageNumber (w.allocator.getAddress p) = p := by
  obtain ⟨haddr, hlt⟩ := h.getAddress hp
  have hm := h.managed_lt
  refine ⟨?_, getPageNumber_eq h.pageSize (by omega) ?_⟩
  · rw [haddr]
    exact Nat.ne_of_gt (Nat.mul_pos hpos h.pageSize)
  · rw [haddr, clearKernelSpace_of_lt hlt]

theorem Sound.isClaimed_zero (h : Sound w) : w.allocator.isClaimed 0 = true := by
  obtain ⟨b, hb, h0⟩ := h.pageZero
  have hmem : b ∈ w.blocks := List.mem_append_right _ hb
  have := h.inside b hmem
  exact (h.bits 0 (by omega)).mpr ⟨b, hmem, h0⟩

/-- A run of free pages that a claim returns becomes a block. -/
theorem Sound.obtain (h : Sound w) {p number : Nat} (hpos : 1 ≤ number)
    (hentries : a.bitmapEntryCount = w.allocator.bitmapEntryCount)
    (hsize : a.pageSize = w.allocator.pageSize) (hfree : w.allocator.FreeRun number p)
    (hbits : ∀ k, a.isClaimed k
      = (w.allocator.isClaimed k || decide (p ≤ k ∧ k < p + number))) :
    Sound (w.obtain number (w.allocator.getAddress p, a)) := by
  have hp : p < w.allocator.managed := by have := hfree.1; omega
  have hne : 0 < p := by
    by_contra h0
    obtain rfl : p = 0 := by omega
    have := hfree.2 0 (Nat.le_refl _) (by omega)
    rw [h.isClaimed_zero] at this
    exact absurd this (by decide)
  obtain ⟨hnull, hname⟩ := h.names hp hne
  simp only [Ledger.obtain, if_neg hnull, hname]
  exact h.add (b := ⟨p, number⟩) hentries hsize hpos hfree hbits

end Invariant

/-! ## Every step keeps the invariant -/

section Steps

variable {w w' : Ledger}

theorem Sound.claimPage (h : Sound w) : Sound (w.obtain 1 w.allocator.claimPage) := by
  have hm := h.managed_lt
  cases hpage : w.allocator.firstFreePage with
  | none =>
    rw [claimPage_none hpage]
    simpa [Ledger.obtain] using h
  | some p =>
    obtain ⟨hfree, -, hbits⟩ := claimPage_spec (by omega) hpage
    rw [claimPage_some hpage] at hbits ⊢
    exact h.obtain (Nat.le_refl 1) rfl rfl hfree hbits

theorem Sound.claimPages (h : Sound w) {rounds number j : Nat} {result : Nat × MemoryAllocator}
    (hpos : 1 ≤ number) (hnumber : number < 2 ^ 32) (hj : j < 32)
    (hrun : w.allocator.claimPages rounds number (2 ^ j) = some result)
    (hsafe : (Call.claimPages number (2 ^ j)).Safe w) : Sound (w.obtain number result) := by
  obtain ⟨⟨page, a⟩, hpages, rfl⟩ := Option.map_eq_some_iff.mp hrun
  by_cases hpath : number = 1 ∧ 2 ^ j = 1
  · obtain ⟨rfl, hone⟩ := hpath
    rw [hone, claimRun_single] at hpages
    obtain ⟨rfl, rfl⟩ := Prod.mk.inj (Option.some.inj hpages)
    have hclaim := h.claimPage
    cases hpage : w.allocator.firstFreePage with
    | none => simpa [claimPage_none hpage] using hclaim
    | some p => simpa [claimPage_some hpage] using hclaim
  · rcases claimRun_search hj h.entries hpos hnumber hpath hpages with
      ⟨p, rfl, hleast, rfl⟩ | ⟨rfl, rfl, -⟩
    · have hbits := isClaimed_claimMultiplePages (a := w.allocator)
        (candidate_fits h.entries hleast.1)
      rcases (hsafe.resolve_left hpath) p hleast with hfree | ⟨rfl, htaken⟩
      · exact h.obtain hpos rfl rfl hfree hbits
      · -- the run at page 0 was taken already: the bitmap stays and the caller gets `NULL`
        have hnull : w.allocator.getAddress 0 = null := by simp [MemoryAllocator.getAddress, null]
        simp only [Option.map_some, Option.getD_some, Ledger.obtain, hnull, if_true]
        refine h.congr rfl rfl fun k => ?_
        rw [hbits]
        by_cases hk : k < number
        · rw [htaken k hk, Bool.true_or]
        · simp [hk]
    · simpa [Ledger.obtain] using h

theorem Sound.range_pages (h : Sound w) {fromAddr toAddr : Nat}
    (hvalid : w.ValidRange fromAddr toAddr) :
    clearKernelSpace fromAddr = (w.range fromAddr toAddr).first * w.allocator.pageSize ∧
      clearKernelSpace toAddr = ((w.range fromAddr toAddr).first
        + (w.range fromAddr toAddr).count) * w.allocator.pageSize ∧
      0 < (w.range fromAddr toAddr).count ∧
      (w.range fromAddr toAddr).first + (w.range fromAddr toAddr).count
        ≤ w.allocator.managed := by
  have hfrom : w.allocator.pageSize ∣ clearKernelSpace fromAddr := by
    rw [clearKernelSpace_eq]
    exact (Nat.dvd_mod_iff h.pageDvd).mpr hvalid.fromAligned
  have hto : w.allocator.pageSize ∣ clearKernelSpace toAddr := by
    rw [clearKernelSpace_eq]
    exact (Nat.dvd_mod_iff h.pageDvd).mpr hvalid.toAligned
  obtain ⟨m, hm⟩ := hfrom
  obtain ⟨n, hn⟩ := hto
  have hlt := hvalid.nonempty
  have hle := hvalid.inside
  have hps := h.pageSize
  rw [hm, hn] at hlt
  have hmn : m < n := Nat.lt_of_mul_lt_mul_left hlt
  rw [hn, Nat.mul_comm] at hle
  have hnm : n ≤ w.allocator.managed := Nat.le_of_mul_le_mul_right hle hps
  simp only [Ledger.range, hm, hn, Nat.mul_div_cancel_left _ hps]
  refine ⟨Nat.mul_comm _ _, ?_, by omega, by omega⟩
  rw [Nat.add_sub_cancel' (Nat.le_of_lt hmn), Nat.mul_comm]

theorem Sound.claimRange (h : Sound w) {fromAddr toAddr : Nat}
    (hvalid : w.ValidRange fromAddr toAddr)
    (hfree : ∀ b ∈ w.blocks, (w.range fromAddr toAddr).Apart b) :
    Sound { w with
      allocator := w.allocator.claimRange fromAddr toAddr
      owned := w.range fromAddr toAddr :: w.owned } := by
  obtain ⟨hfrom, hto, hcount, hfit⟩ := h.range_pages hvalid
  have hlt := hfit.trans_lt h.managed_lt
  generalize w.range fromAddr toAddr = b at *
  have hpage := getPageNumber_eq h.pageSize (by omega) hfrom
  have hpages := rangePages_eq h.pageSize hcount hlt hfrom hto
  refine h.add (claimRange_bitmapEntryCount _ _) (claimRange_pageSize _ _) hcount ⟨hfit, fun k hlo hhi => ?_⟩ fun k => ?_
  · by_contra hclaimed
    obtain ⟨c, hc, hck⟩ := (h.bits k (by omega)).mp (by simpa using hclaimed)
    exact hfree c hc k ⟨hlo, hhi⟩ hck
  · rw [MemoryAllocator.claimRange, hpage, hpages, isClaimed_claimMultiplePages hlt,
      Block.decide_contains]

theorem Sound.names_page (h : Sound w) {addr : Nat} {b : Block} (hb : b ∈ w.owned)
    (haddr : w.Names addr b) : w.allocator.getPageNumber addr = b.first := by
  have hm := h.managed_lt
  have := h.inside b (List.mem_append_left _ hb)
  exact getPageNumber_eq h.pageSize (by omega) haddr

theorem Sound.freePage (h : Sound w) {addr : Nat} {b : Block} (hb : b ∈ w.owned)
    (hone : b.count = 1) (haddr : w.Names addr b) :
    Sound (w.giveBack b (w.allocator.freePage addr)) := by
  refine h.remove (freePage_bitmapEntryCount _) (freePage_pageSize _) hb fun k => ?_
  rw [MemoryAllocator.freePage, h.names_page hb haddr, isClaimed_freeSpecificPage]
  congr 3
  apply propext
  simp only [Block.Contains, hone]
  omega

theorem Sound.freePages (h : Sound w) {addr : Nat} {b : Block} (hb : b ∈ w.owned)
    (haddr : w.Names addr b) (hsafe : (Call.freePages addr b.count).Safe w) :
    Sound (w.giveBack b (w.allocator.freePages addr b.count)) := by
  have hm := h.managed_lt
  have hin := h.inside b (List.mem_append_left _ hb)
  simp only [Call.Safe, h.names_page hb haddr] at hsafe
  refine h.remove (freePages_bitmapEntryCount _ _) (freePages_pageSize _ _) hb fun k => ?_
  rw [MemoryAllocator.freePages, h.names_page hb haddr,
    isClaimed_freeMultiplePages hsafe (by omega), Block.decide_contains]

theorem Sound.freeRange (h : Sound w) {fromAddr toAddr : Nat} {b : Block} (hb : b ∈ w.owned)
    (hfrom : w.Names fromAddr b) (hto : w.Names toAddr ⟨b.first + b.count, 0⟩)
    (hsafe : (Call.freeRange fromAddr toAddr).Safe w) :
    Sound (w.giveBack b (w.allocator.freeRange fromAddr toAddr)) := by
  have hm := h.managed_lt
  have hin := h.inside b (List.mem_append_left _ hb)
  have hpages := rangePages_eq h.pageSize hin.1 (by omega) hfrom hto
  simp only [Call.Safe, h.names_page hb hfrom, hpages] at hsafe
  refine h.remove (freeRange_bitmapEntryCount _ _) (freeRange_pageSize _ _) hb fun k => ?_
  rw [MemoryAllocator.freeRange, h.names_page hb hfrom, hpages,
    isClaimed_freeMultiplePages hsafe (by omega), Block.decide_contains]

theorem Sound.step (h : Sound w) (hstep : SafeStep w w') : Sound w' := by
  obtain ⟨c, hstep, hsafe⟩ := hstep
  cases hstep with
  | claimPage => exact h.claimPage
  | claimPages hpos hnumber halign hrun => exact h.claimPages hpos hnumber halign hrun hsafe
  | claimRange hvalid hfree => exact h.claimRange hvalid hfree
  | freePage hb hone haddr => exact h.freePage hb hone haddr
  | freePages hb haddr => exact h.freePages hb haddr hsafe
  | freeRange hb hfrom hto => exact h.freeRange hb hfrom hto hsafe

theorem Sound.run (h : Sound w) (hrun : Relation.ReflTransGen SafeStep w w') : Sound w' := by
  induction hrun with
  | refl => exact h
  | tail _ hstep ih => exact ih.step hstep

end Steps

/-! ## Boot -/

/-- The arguments of `memory_allocator_init` and the end of the range from address
0 that is reserved after it: everything page aligned, the bitmap inside the pages
it manages and above the reserved range. -/
structure BootLayout where
  addr : Nat
  numberOfPages : Nat
  pageSize : Nat
  reservedEnd : Nat
  addr_lt : addr < 2 ^ 64
  pages_lt : numberOfPages < 2 ^ 32
  pageSize_eq : ∃ i ≤ 16, pageSize = 2 ^ i
  addr_dvd : pageSize ∣ addr
  reserved_dvd : pageSize ∣ reservedEnd
  reserved_pos : 0 < reservedEnd
  reserved_le : reservedEnd ≤ clearKernelSpace addr
  nonempty : 0 < numberOfPages / 64
  inside : clearKernelSpace addr + numberOfPages / 64 * 8 ≤ numberOfPages / 64 * 64 * pageSize

namespace BootLayout

variable (l : BootLayout)

/-- The pages of the bitmap. -/
def bitmapBlock : Block :=
  let first := clearKernelSpace l.addr / l.pageSize
  ⟨first, (clearKernelSpace l.addr + l.numberOfPages / 64 * 8 + l.pageSize - 1) / l.pageSize - first⟩

/-- `memory_allocator_init` and the reservation of the first pages. -/
def boot (memory : Nat → BitVec 64) : Ledger :=
  { allocator := (init memory l.addr l.numberOfPages l.pageSize).claimRange 0 l.reservedEnd
    reserved := [⟨0, l.reservedEnd / l.pageSize⟩, l.bitmapBlock]
    owned := [] }

/-- The zeroed bitmap `memory_allocator_init` starts from. -/
def zeroed (memory : Nat → BitVec 64) : MemoryAllocator :=
  { pageSize := l.pageSize, bitmapEntryCount := l.numberOfPages / 64
    bitmap := fun i => if i < l.numberOfPages / 64 then 0#64 else memory i }

theorem zeroed_isClaimed (memory : Nat → BitVec 64) {k : Nat} (hk : k < l.numberOfPages / 64 * 64) :
    (l.zeroed memory).isClaimed k = false := by
  have : k / 64 < l.numberOfPages / 64 := by omega
  simp [isClaimed, pageBit, zeroed, this]

theorem pageSize_pos : 0 < l.pageSize := by
  obtain ⟨i, -, h⟩ := l.pageSize_eq
  rw [h]
  exact Nat.two_pow_pos i

theorem pageSize_dvd : l.pageSize ∣ 2 ^ 48 := by
  obtain ⟨i, hi, h⟩ := l.pageSize_eq
  rw [h]
  exact Nat.pow_dvd_pow 2 (by omega)

/-- The managed memory ends a page or more below the top of the address space. -/
theorem managed_add_page : l.numberOfPages / 64 * 64 * l.pageSize + l.pageSize ≤ 2 ^ 48 := by
  obtain ⟨i, hi, h⟩ := l.pageSize_eq
  have hle : l.pageSize ≤ 2 ^ 16 := h ▸ Nat.pow_le_pow_right (by decide) hi
  have hpages := l.pages_lt
  have hmul : (l.numberOfPages / 64 * 64 + 1) * l.pageSize ≤ 2 ^ 32 * 2 ^ 16 :=
    Nat.mul_le_mul (by omega) hle
  rw [Nat.add_mul, Nat.one_mul] at hmul
  omega

/-- The rounded end of the bitmap, as the page after its last one. -/
theorem clear_bitmapEnd :
    clearKernelSpace (alignUp64 (u64 (l.addr + l.numberOfPages / 64 * 8)) l.pageSize)
      = (clearKernelSpace l.addr + l.numberOfPages / 64 * 8 + l.pageSize - 1) / l.pageSize
        * l.pageSize := by
  obtain ⟨i, hi, hps⟩ := l.pageSize_eq
  obtain ⟨m, hm⟩ := l.pageSize_dvd
  have hpos := l.pageSize_pos
  have haddr := l.addr_lt
  have htop := l.managed_add_page
  have hinside := l.inside
  rw [clearKernelSpace_eq] at hinside ⊢
  rw [clearKernelSpace_eq]
  have hsplit : l.addr = l.addr % 2 ^ 48 + l.addr / 2 ^ 48 * m * l.pageSize := by
    rw [Nat.mul_assoc, Nat.mul_comm m, ← hm, Nat.mul_comm]
    exact (Nat.mod_add_div _ _).symm
  generalize l.numberOfPages / 64 = n at *
  have hlt : l.addr + n * 8 + l.pageSize ≤ 2 ^ 64 := by omega
  have hround : alignUp64 (u64 (l.addr + n * 8)) l.pageSize
      = (l.addr + n * 8 + l.pageSize - 1) / l.pageSize * l.pageSize := by
    rw [u64_of_lt (by omega)]
    rw [hps] at hlt ⊢
    exact alignUp64_two_pow (by omega) hlt
  have hshift : (l.addr + n * 8 + l.pageSize - 1) / l.pageSize
      = (l.addr % 2 ^ 48 + n * 8 + l.pageSize - 1) / l.pageSize + l.addr / 2 ^ 48 * m := by
    rw [← Nat.add_mul_div_right _ _ hpos]
    congr 1
    omega
  have hle := Nat.div_mul_le_self (l.addr % 2 ^ 48 + n * 8 + l.pageSize - 1) l.pageSize
  rw [hround, hshift, Nat.add_mul, Nat.mul_assoc _ m, Nat.mul_comm m, ← hm, Nat.add_mul_mod_self_right,
    Nat.mod_eq_of_lt (by omega)]

theorem clear_addr : clearKernelSpace l.addr = l.bitmapBlock.first * l.pageSize := by
  have hdvd : l.pageSize ∣ clearKernelSpace l.addr := by
    rw [clearKernelSpace_eq]
    exact (Nat.dvd_mod_iff l.pageSize_dvd).mpr l.addr_dvd
  exact (Nat.div_mul_cancel hdvd).symm

/-- The bitmap takes at least one page, and only managed ones. -/
theorem bitmapBlock_inside : 0 < l.bitmapBlock.count ∧
    l.bitmapBlock.first + l.bitmapBlock.count
      = (clearKernelSpace l.addr + l.numberOfPages / 64 * 8 + l.pageSize - 1) / l.pageSize ∧
    l.bitmapBlock.first + l.bitmapBlock.count ≤ l.numberOfPages / 64 * 64 := by
  have hpos := l.pageSize_pos
  have hnonempty := l.nonempty
  have hlow : clearKernelSpace l.addr / l.pageSize + 1
      ≤ (clearKernelSpace l.addr + l.numberOfPages / 64 * 8 + l.pageSize - 1) / l.pageSize := by
    rw [← Nat.add_div_right _ hpos]
    exact Nat.div_le_div_right (by omega)
  have hhigh : (clearKernelSpace l.addr + l.numberOfPages / 64 * 8 + l.pageSize - 1) / l.pageSize
      ≤ l.numberOfPages / 64 * 64 := by
    have := l.inside
    have hlt : (clearKernelSpace l.addr + l.numberOfPages / 64 * 8 + l.pageSize - 1) / l.pageSize
        < l.numberOfPages / 64 * 64 + 1 := by
      rw [Nat.div_lt_iff_lt_mul hpos, Nat.add_mul, Nat.one_mul]
      omega
    omega
  simp only [bitmapBlock]
  omega

theorem clear_reservedEnd :
    clearKernelSpace l.reservedEnd = l.reservedEnd / l.pageSize * l.pageSize := by
  have hle := l.reserved_le
  have htop := l.managed_add_page
  have hinside := l.inside
  have hnonempty := l.nonempty
  rw [clearKernelSpace_of_lt (by omega), Nat.div_mul_cancel l.reserved_dvd]

theorem reserved_pages : 0 < l.reservedEnd / l.pageSize ∧
    l.reservedEnd / l.pageSize ≤ l.bitmapBlock.first :=
  ⟨Nat.div_pos (Nat.le_of_dvd l.reserved_pos l.reserved_dvd) l.pageSize_pos,
    Nat.div_le_div_right l.reserved_le⟩

theorem init_eq (memory : Nat → BitVec 64) :
    init memory l.addr l.numberOfPages l.pageSize = (l.zeroed memory).claimRange l.addr
      (alignUp64 (u64 (l.addr + l.numberOfPages / 64 * 8)) l.pageSize) := by
  rw [init, zeroed, pagesPerEntry]

theorem init_isClaimed (memory : Nat → BitVec 64) (k : Nat) :
    (init memory l.addr l.numberOfPages l.pageSize).isClaimed k
      = ((l.zeroed memory).isClaimed k || decide (l.bitmapBlock.Contains k)) := by
  obtain ⟨hcount, hend, hfit⟩ := l.bitmapBlock_inside
  have hlt : l.bitmapBlock.first + l.bitmapBlock.count < 2 ^ 32 := by
    have := l.pages_lt
    omega
  have hfrom := l.clear_addr
  have hto := l.clear_bitmapEnd
  rw [← hend] at hto
  generalize l.bitmapBlock = b at *
  have hpos : 0 < (l.zeroed memory).pageSize := l.pageSize_pos
  have hpage : (l.zeroed memory).getPageNumber l.addr = b.first :=
    getPageNumber_eq hpos (by omega) hfrom
  have hpages := rangePages_eq (a := l.zeroed memory) hpos hcount hlt hfrom hto
  rw [l.init_eq, claimRange, hpage, hpages, isClaimed_claimMultiplePages hlt, Block.decide_contains]

theorem boot_isClaimed (memory : Nat → BitVec 64) (k : Nat) :
    (l.boot memory).allocator.isClaimed k
      = ((l.zeroed memory).isClaimed k || decide (l.bitmapBlock.Contains k)
        || decide (k < l.reservedEnd / l.pageSize)) := by
  obtain ⟨-, -, hfit⟩ := l.bitmapBlock_inside
  obtain ⟨hcount, hbelow⟩ := l.reserved_pages
  have hto := l.clear_reservedEnd
  have hpages := l.pages_lt
  have hlt : 0 + l.reservedEnd / l.pageSize < 2 ^ 32 := by omega
  generalize hend : l.reservedEnd / l.pageSize = e at *
  have hsize : (init memory l.addr l.numberOfPages l.pageSize).pageSize = l.pageSize := by
    rw [l.init_eq, claimRange_pageSize, zeroed]
  have hpos : 0 < (init memory l.addr l.numberOfPages l.pageSize).pageSize :=
    hsize ▸ l.pageSize_pos
  have hfrom : clearKernelSpace 0
      = 0 * (init memory l.addr l.numberOfPages l.pageSize).pageSize := by
    rw [Nat.zero_mul, clearKernelSpace_eq]
    rfl
  have hpage := getPageNumber_eq hpos (Nat.two_pow_pos 32) hfrom
  have hrange := rangePages_eq hpos hcount hlt hfrom (by rw [hsize, Nat.zero_add]; exact hto)
  rw [boot, claimRange, hpage, hrange, isClaimed_claimMultiplePages hlt, l.init_isClaimed]
  congr 2
  apply propext
  omega

/-- After boot the ledger is right: the bitmap's own pages and the first pages
are taken, and nothing else. -/
theorem boot_sound (memory : Nat → BitVec 64) : Sound (l.boot memory) := by
  obtain ⟨hcount, -, hfit⟩ := l.bitmapBlock_inside
  obtain ⟨hend, hbelow⟩ := l.reserved_pages
  have hentries : (l.boot memory).allocator.bitmapEntryCount = l.numberOfPages / 64 := by
    rw [boot, claimRange_bitmapEntryCount, l.init_eq, claimRange_bitmapEntryCount, zeroed]
  have hsize : (l.boot memory).allocator.pageSize = l.pageSize := by
    rw [boot, claimRange_pageSize, l.init_eq, claimRange_pageSize, zeroed]
  have hmanaged : (l.boot memory).allocator.managed = l.numberOfPages / 64 * 64 := by
    rw [managed, hentries, pagesPerEntry]
  have hblocks : (l.boot memory).blocks
      = [⟨0, l.reservedEnd / l.pageSize⟩, l.bitmapBlock] := rfl
  have hpages := l.pages_lt
  refine ⟨⟨fun k hk => ?_, ?_⟩, ?_, ?_, ?_, ?_, fun b hb => ?_, ?_⟩
  · rw [l.boot_isClaimed, l.zeroed_isClaimed memory (hmanaged ▸ hk), hblocks,
      Block.decide_contains]
    simp [Block.Contains, or_comm]
  · rw [hblocks]
    simp only [List.pairwise_cons, List.mem_singleton, forall_eq, List.not_mem_nil,
      false_imp_iff, implies_true, List.Pairwise.nil, and_true]
    rintro k ⟨-, hk⟩ ⟨hk', -⟩
    simp only at hk
    omega
  · rw [hentries]; omega
  · rw [hsize]; exact l.pageSize_pos
  · rw [hsize]; exact l.pageSize_dvd
  · rw [hmanaged, hsize]
    have := l.managed_add_page
    omega
  · rw [hmanaged]
    rw [hblocks] at hb
    simp only [List.mem_cons, List.not_mem_nil, or_false] at hb
    rcases hb with rfl | rfl
    · simp only
      omega
    · exact ⟨hcount, hfit⟩
  · exact ⟨_, List.mem_cons_self, Nat.le_refl 0, by simpa using hend⟩

end BootLayout

/-! ## Whole runs -/

/-- In every run from boot whose calls are all safe, the bits are those of the
reserved and owned pages, and no page is ever given to two owners. -/
theorem exclusive_of_safe_run (l : BootLayout) (memory : Nat → BitVec 64) {w : Ledger}
    (hrun : Relation.ReflTransGen SafeStep (l.boot memory) w) : w.Exclusive :=
  ((l.boot_sound memory).run hrun).toExclusive

/-- Three words of bitmap in page 40, with the 40 pages below reserved. -/
def smallLayout : BootLayout where
  addr := 163840
  numberOfPages := 192
  pageSize := 4096
  reservedEnd := 163840
  addr_lt := by decide
  pages_lt := by decide
  pageSize_eq := ⟨12, by decide, by decide⟩
  addr_dvd := by decide
  reserved_dvd := by decide
  reserved_pos := by decide
  reserved_le := by decide
  nonempty := by decide
  inside := by decide

def smallBoot : Ledger := smallLayout.boot fun _ => 0#64

/-- Two pages behind the reserved ones may be claimed first. -/
theorem smallBoot_range {fromAddr toAddr first : Nat} (hvalid : smallBoot.ValidRange fromAddr toAddr)
    (hrange : smallBoot.range fromAddr toAddr = ⟨first, 2⟩) (hfirst : 41 ≤ first) :
    Step smallBoot (.claimRange fromAddr toAddr)
      { smallBoot with
        allocator := smallBoot.allocator.claimRange fromAddr toAddr
        owned := [⟨first, 2⟩] } := by
  rw [← hrange]
  refine .claimRange (w := smallBoot) hvalid ?_
  have hblocks : smallBoot.blocks = [⟨0, 40⟩, ⟨40, 1⟩] := by decide +kernel
  rw [hrange, hblocks]
  intro b hb k hk hbk
  simp only [List.mem_cons, List.not_mem_nil, or_false] at hb
  rcases hb with rfl | rfl <;> simp only [Block.Contains] at hk hbk <;> omega

/-- Pages 128 and 129 are taken. -/
def smallRange : Ledger :=
  { smallBoot with
    allocator := smallBoot.allocator.claimRange 524288 532480
    owned := [⟨128, 2⟩] }

theorem smallRange_step : SafeStep smallBoot smallRange :=
  ⟨_, smallBoot_range ⟨by decide +kernel, by decide +kernel, by decide, by decide +kernel⟩ (by decide +kernel)
    (by decide), trivial⟩

/-- A word of 64 pages: the first is not free, the second is. -/
theorem smallRange_claimPages_safe : (Call.claimPages 64 (2 ^ 6)).Safe smallRange := by
  have hfree : ∀ k < 64, smallRange.allocator.isClaimed (64 + k) = false := by decide +kernel
  have hmanaged : smallRange.allocator.managed = 192 := by decide +kernel
  have hrun : smallRange.allocator.FreeRun 64 64 := by
    refine ⟨by omega, fun k hlo hhi => ?_⟩
    rw [show k = 64 + (k - 64) by omega]
    exact hfree (k - 64) (by omega)
  refine .inr fun p ⟨⟨⟨q, hq⟩, hinside, hlow⟩, hleast⟩ => .inl ?_
  have hle : p ≤ 64 := hleast ⟨⟨1, rfl⟩, hrun.lowHalfFree⟩
  obtain rfl | rfl : p = 0 ∨ p = 64 := by omega
  · have hclaimed : smallRange.allocator.isClaimed 32 = true := by decide +kernel
    rw [hlow 32 (by decide) (by decide) (by decide)] at hclaimed
    cases hclaimed
  · exact hrun

/-- With the second word claimed, and then one page. -/
def smallWord : Ledger :=
  smallRange.obtain 64 ((smallRange.allocator.claimPages 5 64 (2 ^ 6)).getD (null, smallRange.allocator))

def smallPage : Ledger := smallWord.obtain 1 smallWord.allocator.claimPage

theorem smallWord_step : SafeStep smallRange smallWord := by
  have hsome : (smallRange.allocator.claimPages 5 64 (2 ^ 6)).isSome = true := by decide +kernel
  obtain ⟨result, hresult⟩ := Option.isSome_iff_exists.mp hsome
  refine ⟨_, ?_, smallRange_claimPages_safe⟩
  rw [smallWord, hresult]
  exact .claimPages (by decide) (by decide) (by decide) hresult

/-- Two pages are claimed by their addresses, a whole word and one page by number, and the
word is given back. -/
theorem exclusive_of_safe_run_smallBoot :
    smallPage.owned = [⟨41, 1⟩, ⟨64, 64⟩, ⟨128, 2⟩] ∧ smallPage.Exclusive ∧
    ∃ w, SafeStep smallPage w ∧ w.owned = [⟨41, 1⟩, ⟨128, 2⟩] ∧ w.Exclusive := by
  have howned : smallPage.owned = [⟨41, 1⟩, ⟨64, 64⟩, ⟨128, 2⟩] := by decide +kernel
  have hrun : Relation.ReflTransGen SafeStep smallBoot smallPage :=
    ((Relation.ReflTransGen.single smallRange_step).tail smallWord_step).tail ⟨_, .claimPage _, trivial⟩
  have hmem : ⟨64, 64⟩ ∈ smallPage.owned := by rw [howned]; decide
  have hnames : smallPage.Names 262144 ⟨64, 64⟩ := by unfold Ledger.Names; decide +kernel
  have hpage : smallPage.allocator.getPageNumber 262144 = 64 := by decide +kernel
  have hfree : SafeStep smallPage (smallPage.giveBack ⟨64, 64⟩ (smallPage.allocator.freePages 262144 64)) := by
    refine ⟨_, .freePages hmem hnames, .inl ?_⟩
    rw [hpage]
  refine ⟨howned, exclusive_of_safe_run smallLayout _ hrun, _, hfree, ?_,
    exclusive_of_safe_run smallLayout _ (hrun.tail hfree)⟩
  rw [Ledger.giveBack, howned]
  decide

/-- With two pages at the start of a word taken, an aligned claim of 64 pages is
answered with that very word. -/
theorem exclusive_violated : ∃ w, Relation.ReflTransGen AnyStep smallBoot w ∧ ¬w.Exclusive := by
  let a := smallBoot.allocator.claimRange 262144 270336
  have haddr : (a.claimPages 5 64 (2 ^ 6)).map Prod.fst = some 262144 := by decide +kernel
  have hpage : a.getPageNumber 262144 = 64 := by decide +kernel
  obtain ⟨result, hresult, hfst⟩ := Option.map_eq_some_iff.mp haddr
  have hrange : smallBoot.range 262144 270336 = ⟨64, 2⟩ := by decide +kernel
  have hvalid : smallBoot.ValidRange 262144 270336 :=
    ⟨by decide +kernel, by decide +kernel, by decide, by decide +kernel⟩
  refine ⟨_, .tail (.single ⟨_, smallBoot_range hvalid hrange (by decide)⟩)
    ⟨_, .claimPages (by decide) (by decide) (by decide) hresult⟩, fun h => ?_⟩
  have hapart := h.apart
  rw [Ledger.blocks, Ledger.obtain, hfst, if_neg (by decide), hpage] at hapart
  have := (List.pairwise_cons.mp hapart).1 ⟨64, 2⟩ (by simp) 64
  exact this ⟨by decide, by decide⟩ ⟨by decide, by decide⟩

end MemoryAllocator
end PiVOS
