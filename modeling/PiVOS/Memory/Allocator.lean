-- SUMMARY: The bitmap page allocator of `memory/allocator.c`.
import PiVOS.Lib.Loop
import PiVOS.Utils

/-!
# The page allocator

One bit a page, most significant bit first: page `k` is bit `63 - k % 64` of
word `k / 64`. The bitmap is the memory seen through `s_bitmap`, so it has words
past `s_bitmap_entry_count` as well; they belong to somebody else.
-/

namespace PiVOS

def pageFull : BitVec 64 := ~~~0#64

def pagesPerEntry : Nat := 64

/-- The static state of `allocator.c`. -/
structure MemoryAllocator where
  bitmap : Nat → BitVec 64
  bitmapEntryCount : Nat
  pageSize : Nat

namespace MemoryAllocator

/-- The number of pages the bitmap has a bit for. -/
def managed (a : MemoryAllocator) : Nat := a.bitmapEntryCount * pagesPerEntry

/-- The bit of page `k` in a bitmap. -/
def pageBit (bitmap : Nat → BitVec 64) (k : Nat) : Bool := (bitmap (k / 64)).getMsbD (k % 64)

/-- Page `k` is marked as taken. -/
def isClaimed (a : MemoryAllocator) (k : Nat) : Bool := pageBit a.bitmap k

/-! ## Masks and page numbers -/

def convertToMask (number offset : Nat) : BitVec 64 :=
  (~~~0#64 <<< sub32 pagesPerEntry number) >>> offset

def getPageNumber (a : MemoryAllocator) (addr : Nat) : Nat :=
  u32 (clearKernelSpace addr / a.pageSize)

def getAddress (a : MemoryAllocator) (pageNumber : Nat) : Nat := u64 (pageNumber * a.pageSize)

def claimSpecificPage (a : MemoryAllocator) (pageNumber : Nat) : MemoryAllocator :=
  let mask := convertToMask 1 (pageNumber % pagesPerEntry)
  let entry := pageNumber / pagesPerEntry
  { a with bitmap := Function.update a.bitmap entry (a.bitmap entry ||| mask) }

def freeSpecificPage (a : MemoryAllocator) (pageNumber : Nat) : MemoryAllocator :=
  let mask := ~~~convertToMask 1 (pageNumber % pagesPerEntry)
  let entry := pageNumber / pagesPerEntry
  { a with bitmap := Function.update a.bitmap entry (a.bitmap entry &&& mask) }

/-! ## Runs of pages -/

/-- The variables of the loops over a run of pages; `pages` is `pages_to_claim`
or `pages_to_free`. -/
structure RunCursor where
  bitmap : Nat → BitVec 64
  entry : Nat
  offset : Nat
  count : Nat
  pages : Nat

namespace RunCursor

def start (a : MemoryAllocator) (pageNumber count : Nat) : RunCursor :=
  let offset := pageNumber % pagesPerEntry
  { bitmap := a.bitmap, entry := pageNumber / pagesPerEntry, offset, count,
    pages := min (pagesPerEntry - offset) count }

def active (s : RunCursor) : Bool := decide (0 < s.count)

def claimRound (s : RunCursor) : RunCursor :=
  let mask := convertToMask s.pages s.offset
  let count := sub32 s.count s.pages
  { bitmap := Function.update s.bitmap s.entry (s.bitmap s.entry ||| mask)
    entry := u32 (s.entry + 1), count, pages := min pagesPerEntry count, offset := 0 }

/-- Unlike `claimRound`, the round leaves `offset` as it is. -/
def freeRound (s : RunCursor) : RunCursor :=
  let mask := ~~~convertToMask s.pages s.offset
  let count := sub32 s.count s.pages
  { bitmap := Function.update s.bitmap s.entry (s.bitmap s.entry &&& mask)
    entry := u32 (s.entry + 1), count, pages := min pagesPerEntry count, offset := s.offset }

end RunCursor

/-- Every round takes at least one page, so `count` rounds are enough. -/
def claimMultiplePages (a : MemoryAllocator) (pageNumber count : Nat) : MemoryAllocator :=
  { a with bitmap :=
      (loopWhile RunCursor.active RunCursor.claimRound count (.start a pageNumber count)).bitmap }

def freeMultiplePages (a : MemoryAllocator) (pageNumber count : Nat) : MemoryAllocator :=
  { a with bitmap :=
      (loopWhile RunCursor.active RunCursor.freeRound count (.start a pageNumber count)).bitmap }

/-- The number of pages between two addresses; an empty range counts as one page. -/
def rangePages (a : MemoryAllocator) (fromAddr toAddr : Nat) : Nat :=
  let pages := sub32 (a.getPageNumber toAddr) (a.getPageNumber fromAddr)
  if pages = 0 then pages + 1 else pages

def claimRange (a : MemoryAllocator) (fromAddr toAddr : Nat) : MemoryAllocator :=
  a.claimMultiplePages (a.getPageNumber fromAddr) (a.rangePages fromAddr toAddr)

/-- `memory_allocator_init` on the memory `memory`, whose words at the bitmap's
address become the bitmap. -/
def init (memory : Nat → BitVec 64) (addr numberOfPages pageSize : Nat) : MemoryAllocator :=
  let entryCount := numberOfPages / pagesPerEntry
  let a : MemoryAllocator :=
    { pageSize, bitmapEntryCount := entryCount
      bitmap := fun i => if i < entryCount then 0#64 else memory i }
  let bitmapEnd := u64 (addr + entryCount * 8)
  a.claimRange addr (alignUp64 bitmapEnd pageSize)

/-! ## Claiming -/

/-- The scan of `memory_allocator_claim_page`: the first of the `n` words from
`entryIdx` on that is not full. -/
def findEntry (a : MemoryAllocator) : (n entryIdx : Nat) → Option Nat
  | 0, _ => none
  | n + 1, entryIdx =>
    if a.bitmap entryIdx = pageFull then a.findEntry n (entryIdx + 1) else some entryIdx

/-- The page `memory_allocator_claim_page` takes. -/
def firstFreePage (a : MemoryAllocator) : Option Nat :=
  (a.findEntry a.bitmapEntryCount 0).map fun entryIdx =>
    u32 (entryIdx * pagesPerEntry + (~~~a.bitmap entryIdx).clz.toNat)

def claimPage (a : MemoryAllocator) : Nat × MemoryAllocator :=
  match a.firstFreePage with
  | some pageNumber => (a.getAddress pageNumber, a.claimSpecificPage pageNumber)
  | none => (null, a)

/-- The variables of the search loop in `memory_allocator_claim_pages`. -/
structure Search where
  currentPage : Nat
  offset : Nat
  pagesLeft : Nat
  entryIdx : Nat

def Search.start (number : Nat) : Search :=
  { currentPage := 0, offset := 0, pagesLeft := number, entryIdx := 0 }

def searchActive (a : MemoryAllocator) (s : Search) : Bool :=
  decide (0 < s.pagesLeft ∧ s.entryIdx < a.bitmapEntryCount)

def searchRound (a : MemoryAllocator) (number align : Nat) (s : Search) : Search :=
  let pagesToClaim := min (pagesPerEntry - s.offset) s.pagesLeft
  -- `current_entry` is declared `uint32_t`: the word loses its upper half here
  let currentEntry : BitVec 32 := (a.bitmap s.entryIdx).setWidth 32
  let currentMask := convertToMask pagesToClaim s.offset
  if currentEntry.setWidth 64 &&& currentMask = 0#64 then
    { s with
      pagesLeft := sub32 s.pagesLeft pagesToClaim, entryIdx := u32 (s.entryIdx + 1), offset := 0 }
  else
    let checkedPages := sub32 number s.pagesLeft
    let currentPage := u32 (s.currentPage +
      if checkedPages > align then alignUp32 checkedPages align else align)
    { currentPage, offset := currentPage % pagesPerEntry, entryIdx := currentPage / pagesPerEntry,
      pagesLeft := number }

/-- The search loop, for at most `rounds` rounds. -/
def search (rounds : Nat) (a : MemoryAllocator) (number align : Nat) : Search :=
  loopWhile a.searchActive (a.searchRound number align) rounds (.start number)

/-- `memory_allocator_claim_pages` with the page number it settles on; `none`
when the search is still going on after `rounds` rounds. -/
def claimRun (rounds : Nat) (a : MemoryAllocator) (number align : Nat) :
    Option (Option Nat × MemoryAllocator) :=
  if number = 1 ∧ align = 1 then
    some (a.firstFreePage, a.claimPage.2)
  else
    let s := a.search rounds number align
    if a.searchActive s then none
    else if s.pagesLeft = 0 then
      some (some s.currentPage, a.claimMultiplePages s.currentPage number)
    else some (none, a)

def claimPages (rounds : Nat) (a : MemoryAllocator) (number align : Nat) :
    Option (Nat × MemoryAllocator) :=
  (a.claimRun rounds number align).map fun (page, a') => ((page.map a.getAddress).getD null, a')

/-! ## Freeing -/

def freePage (a : MemoryAllocator) (addr : Nat) : MemoryAllocator :=
  a.freeSpecificPage (a.getPageNumber addr)

def freeRange (a : MemoryAllocator) (fromAddr toAddr : Nat) : MemoryAllocator :=
  a.freeMultiplePages (a.getPageNumber fromAddr) (a.rangePages fromAddr toAddr)

def freePages (a : MemoryAllocator) (addr count : Nat) : MemoryAllocator :=
  a.freeMultiplePages (a.getPageNumber addr) count

end MemoryAllocator

end PiVOS
