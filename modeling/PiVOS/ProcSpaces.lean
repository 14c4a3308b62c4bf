-- SUMMARY: The memory of processes: spaces apart from one another, given back on exit.
import PiVOS.Memory.KernelMap
import PiVOS.Memory.SpaceHeap
import PiVOS.ProcNesting

/-!
# The spaces of the processes

The processes with the memory they really have. The heap is that below as many spaces
as there are processes, and the tables of every process are in memory, since a program
writes to its own block only.
-/

namespace PiVOS

/-! ## Memory operations -/

namespace Memory

/-- The rounds are enough to destroy any tree. Of the upper half nothing is known here, and
nothing faults there. -/
def ops : MemoryOps Memory where
  createContext := memoryCreateContext
  destroyContext m level0Table :=
    (m.memoryDestroyContext (Mmu.subtreeRounds 3) level0Table).toOption.getD m
  mapRegion := memoryMapRegion
  load m ttbr0 va := (m.userLoad ttbr0 va).getD 0
  store := userStore
  reaches m ttbr0 _ va := 2 ^ 48 ≤ va || (m.userAddress ttbr0 va).isSome

theorem ops_destroyContext_of_ok {m m' : Memory} {level0Table : Nat}
    (h : m.memoryDestroyContext (Mmu.subtreeRounds 3) level0Table = .ok m') :
    ops.destroyContext m level0Table = m' := by
  simp only [ops, h, Except.toOption, Option.getD_some]

end Memory

namespace Space

variable {p : Space} {m : Memory} {ttbr0 : Nat}

/-- Copying to a program's memory changes its block only. -/
theorem InMemory.bytecpy_blockOnly (hp : p.Apart) (httbr0 : ttbr0 % 2 ^ 48 = p.root)
    (hm : p.InMemory m.mem) (va : Nat) (bytes : List UInt8) :
    BlockOnly p m (Memory.ops.bytecpy ttbr0 va bytes m) := by
  induction bytes generalizing va m with
  | nil => exact .refl p m
  | cons c bytes ih =>
    have hstore := hm.userStore_blockOnly hp httbr0 va c
    exact hstore.trans (ih (hstore.inMemory hp hm) _)

/-- Afterwards the block holds the bytes from `va` on, and what it held before elsewhere. -/
theorem InMemory.byteAt_bytecpy (hp : p.Apart) (httbr0 : ttbr0 % 2 ^ 48 = p.root)
    (hm : p.InMemory m.mem) {va : Nat} {bytes : List UInt8} (hfit : va + bytes.length < 2 ^ 64)
    {v : Nat} (hv : v < 2 ^ 21) :
    byteAt (Memory.ops.bytecpy ttbr0 va bytes m).mem (p.block + v) =
      if va ≤ v then bytes[v - va]?.getD (byteAt m.mem (p.block + v))
      else byteAt m.mem (p.block + v) := by
  induction bytes generalizing va m with
  | nil => simp [MemoryOps.bytecpy]
  | cons c bytes ih =>
    have hstore := hm.userStore_blockOnly hp httbr0 va c
    have hbyte : byteAt (m.userStore ttbr0 va c).mem (p.block + v) =
        if v = va then c else byteAt m.mem (p.block + v) := hm.byteAt_userStore hp httbr0 hv c
    rw [List.length_cons] at hfit
    have hstep : Memory.ops.bytecpy ttbr0 va (c :: bytes) m =
        Memory.ops.bytecpy ttbr0 (u64 (va + 1)) bytes (m.userStore ttbr0 va c) := rfl
    rw [hstep, u64_of_lt (by omega), ih (hstore.inMemory hp hm) (by omega), hbyte]
    rcases Nat.lt_trichotomy v va with hlt | rfl | hgt
    · rw [if_neg (by omega), if_neg (by omega), if_neg (by omega)]
    · rw [if_neg (by omega), if_pos rfl, if_pos (Nat.le_refl v), Nat.sub_self]
      rfl
    · have hindex : v - va = v - (va + 1) + 1 := by omega
      rw [if_pos (by omega), if_neg (by omega), if_pos (by omega), hindex, List.getElem?_cons_succ]

end Space

/-! ## Memory in the calls -/

namespace ProcKernel

variable {M : Type} {ops : MemoryOps M} {progs : KprocProgTab} {k k' : ProcKernel M}

/-- Where the memory of a new process comes from. -/
theorem kprocEnter_memory (hcap : k.stack.capacity = kprocMaxCount)
    (hroom : k.stack.len < kprocMaxCount) {text : List UInt8}
    (h : k.kprocEnter ops text = some k') :
    (k'.stack.buffer k.stack.len).level0Table = (ops.createContext k.memory).1 ∧
      k'.memory = ops.bytecpy k'.ttbr0 kprocProgOffset text
        (ops.mapRegion (ops.createContext k.memory).2 (ops.createContext k.memory).1 kprocRegion
          .alloc) := by
  have halloc := Stack.alloc_of_room (hcap ▸ hroom) (hcap ▸ by decide)
  rw [kprocEnter, kprocAlloc, halloc] at h
  obtain rfl := Option.some.inj h
  refine ⟨?_, rfl⟩
  simp only [kprocInit, kprocMemSwitch]
  rw [Stack.modify_self]

/-- A start leaves the stack below the parent's slot, the tables and the memory to the
new process to change. -/
theorem kcallProcStart_enter (hlive : k.Live) (hroom : k.stack.len < kprocMaxCount) {rs rs' : Frame}
    (hprog : rs.uint32 0 < kprocProgCount) (h : k.kcallProcStart ops progs rs = some (rs', k')) :
    ∃ k₁ : ProcKernel M, k₁.memory = k.memory ∧ k₁.stack.len = k.stack.len ∧
      k₁.stack.capacity = k.stack.capacity ∧
      (∀ i, (k₁.stack.buffer i).level0Table = (k.stack.buffer i).level0Table) ∧
      k₁.kprocEnter ops (progs ⟨rs.uint32 0, hprog⟩) = some k' := by
  rw [kcallProcStart, kprocStart, kprocProgTab_of_lt progs hprog, if_neg (hlive.not_full hroom)] at h
  simp only [Option.bind_eq_bind, Option.bind_some, Stack.peek_of_pos hlive.pos] at h
  refine ⟨(k.kprocMemSwitch (k.stack.len - 1)).kprocSuspend (k.stack.len - 1) rs, rfl, rfl, rfl,
    fun i => ?_, ?_⟩
  · rw [kprocSuspend]
    by_cases hi : i = k.stack.len - 1
    · subst hi
      rw [Stack.modify_self]
      rfl
    · rw [Stack.modify_of_ne _ hi]
      rfl
  · cases henter : ((k.kprocMemSwitch (k.stack.len - 1)).kprocSuspend (k.stack.len - 1) rs).kprocEnter
        ops (progs ⟨rs.uint32 0, hprog⟩) with
    | none =>
      rw [henter] at h
      cases h
    | some k₂ =>
      rw [henter] at h
      exact congrArg some (Prod.mk.inj (Option.some.inj h)).2

/-- An exit destroys the context of the top process. -/
theorem kcallProcExit_memory (hlive : k.Live) (hdeep : 2 ≤ k.stack.len) {rs rs' : Frame}
    (h : k.kcallProcExit ops rs = some (rs', k')) :
    k'.memory = ops.destroyContext k.memory (k.stack.buffer (k.stack.len - 1)).level0Table := by
  have hfree := Stack.free_of_pos (Nat.lt_of_lt_of_le Nat.zero_lt_two hdeep)
  have hpeek : k.stack.free.peek = some (k.stack.len - 2) := by
    rw [hfree, Stack.peek_of_pos (by simp only; omega)]
    rfl
  rw [kcallProcExit, kprocExit, kprocCount, if_neg (by omega), kprocFree,
    Stack.peek_of_pos hlive.pos] at h
  simp only [Option.map_some, Option.bind_eq_bind, Option.bind_some, hpeek] at h
  obtain ⟨-, rfl⟩ := Prod.mk.inj (Option.some.inj h)
  rfl

end ProcKernel

/-! ## The heap at boot -/

/-- `mmu_space_start`: the boot's tables are the last three pages of the image. -/
def mmuSpaceStart (image : Nat) : Nat := setKernelSpace (image - 3 * mmuPageSize)

/-- What `memory_init` of `kernel_main` leaves for an image that ends at `image`. -/
def bootMemory (memory : Nat → BitVec 64) (mem : Nat → Nat) (image : Nat) : Memory :=
  memoryInit memory (setupTables mem (mmuSpaceStart image)) (mmuSpaceStart image)
    (setKernelSpace image) (4 * gbInB)

section Boot

variable (memory : Nat → BitVec 64) (mem : Nat → Nat) {image : Nat}

/-- The byte at `pa` belongs to the image, to the bitmap behind it, to one of the pages
taken for the kernel's tables or to the peripherals. -/
def KernelOccupied (image : Nat) (tables : List Nat) (pa : Nat) : Prop :=
  pa < image ∨ image ≤ pa ∧ pa < bitmapEnd image (4 * gbInB) ∨
    (∃ a ∈ tables, a ≤ pa ∧ pa < a + 4096) ∨ peripherialsStart ≤ pa ∧ pa < peripherialsEnd

/-- What the kernel occupies ends well before the second block, up to the peripherals. -/
theorem bootMemory_room (hpage : image % 4096 = 0) (hlow : 0x80000 < image)
    (hhigh : image ≤ 0x100000) :
    ∃ first, RoomForSpaces (bootMemory memory mem image).heap first ∧
      ∀ pa, KernelOccupied image (bootMemory memory mem image).tables pa →
        pa < first * 4096 ∨ peripherialsStart ≤ pa := by
  have hgb : 4 * gbInB = 2 ^ 32 := by decide
  have himage : image ≠ 0 ∧ image < 2 ^ 29 := by omega
  obtain ⟨n, hn, hheap, htables⟩ := memoryInit_heap memory (setupTables mem (mmuSpaceStart image))
    (image - 3 * mmuPageSize) hpage himage (Nat.le_refl (2 ^ 32)) (by decide)
  rw [show setKernelSpace (image - 3 * mmuPageSize) = mmuSpaceStart image from rfl] at hheap htables
  obtain ⟨p, hp⟩ : ∃ p, p = firstFree image (2 ^ 32) := ⟨_, rfl⟩
  have hfirst : p = image / 4096 + 32 := hp
  have hbits : ∀ k < 2 ^ 20, _ := fun k hk => memoryInitAllocator_isClaimed memory hpage himage
    (Nat.le_refl (2 ^ 32)) (by decide) (by exact hk)
  have hhole := memoryInitAllocator_hole memory hpage himage (Nat.le_refl (2 ^ 32)) (by decide)
  have hentries := memoryInitAllocator_bitmapEntryCount memory (setKernelSpace image)
    (show 2 ^ 32 ≤ 2 ^ 39 by decide)
  rw [← hp] at hbits hhole htables
  have hn : n ≤ 21 := hn
  obtain ⟨-, htaken, htakenBits⟩ := hhole.claimPageTimes (show p + n ≤ 0xF0000 by omega)
  rw [bootMemory, hgb]
  refine ⟨p + n, ⟨⟨?_, ?_, fun k hk => ?_⟩, by omega, ?_⟩, ?_⟩
  · rw [hheap, htaken.pageSize]
  · rw [hheap, MemoryAllocator.claimPageTimes_bitmapEntryCount, hentries]
    decide
  · rw [hheap, htakenBits, hbits k hk, ← Bool.decide_or]
    apply decide_eq_decide.mpr
    omega
  · rw [kprocMaxCount]
    omega
  · rintro pa (hin | ⟨-, hin⟩ | ⟨a, ha, hin⟩ | ⟨hin, -⟩)
    · omega
    · rw [hgb, bitmapEnd_eq hpage himage.2 (by decide), ← hp] at hin
      omega
    · rw [htables, List.mem_reverse, List.mem_map] at ha
      obtain ⟨k, hk, rfl⟩ := ha
      rw [List.mem_range'_1] at hk
      omega
    · exact .inr hin

end Boot

/-! ## The invariant -/

namespace RoomForSpaces

variable {a : MemoryAllocator} {first i j : Nat}

/-- No table word of a process is in a table or in the block of another one. -/
theorem isTableWord_apart (h : RoomForSpaces a first) (hi : i < kprocMaxCount) (hj : j < kprocMaxCount)
    {w : Nat} (hw : (spaceAt a i).IsTableWord w) :
    (i ≠ j → ¬(spaceAt a j).IsTableWord w) ∧
      ∀ pa, (spaceAt a j).block ≤ pa → pa < (spaceAt a j).block + 2 ^ 21 → w ≠ pa / 8 := by
  have hroom := h.room
  rw [h.isTableWord_iff hi] at hw
  unfold kprocMaxCount at hi hj hroom
  refine ⟨fun hne hw' => ?_, fun pa hlo hhi heq => ?_⟩
  · rw [h.isTableWord_iff hj] at hw'
    omega
  · rw [h.block_eq hj] at hlo hhi
    omega

end RoomForSpaces

namespace ProcKernel

/-- Every process has the space that its place on the stack gives it. -/
structure SpacesHeld (a : MemoryAllocator) (k : ProcKernel Memory) : Prop where
  heap : k.memory.heap = heapAt a k.stack.len
  table : ∀ i < k.stack.len, (k.stack.buffer i).level0Table = setKernelSpace (spaceAt a i).root
  inMemory : ∀ i < k.stack.len, (spaceAt a i).InMemory k.memory.mem

section Spaces

variable {a : MemoryAllocator} {first : Nat} {progs : KprocProgTab} {k k' : ProcKernel Memory}
  (ha : RoomForSpaces a first)

/-- The level-0 table is what the ASID leaves of `TTBR0`. -/
theorem tagged_mod {i root : Nat} (hroot : root < 2 ^ 48)
    (htable : (k.stack.buffer i).level0Table = setKernelSpace root) : k.tagged i % 2 ^ 48 = root := by
  rw [tagged, htable, setKernelSpace_of_lt hroot, kernelSpaceMask]
  omega

theorem SpacesHeld.memory (h : k.SpacesHeld a) {memory : Memory} (hheap : memory.heap = k.memory.heap)
    (hmem : ∀ i < k.stack.len, ∀ w, (spaceAt a i).IsTableWord w → memory.mem w = k.memory.mem w)
    (hstack : k'.stack = k.stack) (hmemory : k'.memory = memory) : k'.SpacesHeld a := by
  constructor
  · rw [hmemory, hheap, hstack, h.heap]
  · rw [hstack]
    exact h.table
  · rw [hmemory, hstack]
    exact fun i hi => (h.inMemory i hi).congr (hmem i hi)

include ha

theorem SpacesHeld.ttbr0 (h : k.SpacesHeld a) (hlive : k.Live) :
    k.ttbr0 % 2 ^ 48 = (spaceAt a (k.stack.len - 1)).root := by
  have hpos := hlive.pos
  have htop : k.stack.len - 1 < k.stack.len := by omega
  rw [hlive.ttbr0]
  exact tagged_mod (ha.apart_spaceAt (Nat.lt_of_lt_of_le htop hlive.le)).root.2 (h.table _ htop)

/-- A program that writes to its memory changes no tables. -/
theorem SpacesHeld.blockOnly (h : k.SpacesHeld a) (hlen : k.stack.len ≤ kprocMaxCount) {i : Nat}
    (hi : i < kprocMaxCount) {memory : Memory} (hblock : (spaceAt a i).BlockOnly k.memory memory)
    (hstack : k'.stack = k.stack) (hmemory : k'.memory = memory) : k'.SpacesHeld a :=
  h.memory hblock.heap (fun _ hj w hw => hblock.frame w
    (ha.isTableWord_apart (Nat.lt_of_lt_of_le hj hlen) hi hw).2) hstack hmemory

/-- What entering a program leaves: a space for the new process, with the text in its
block, which is otherwise as it was. -/
structure EnteredSpace (a : MemoryAllocator) (k k' : ProcKernel Memory) (text : List UInt8) : Prop where
  held : k'.SpacesHeld a
  spEl0 : k'.spEl0 = BitVec.ofNat 64 kprocProgOffset
  elrEl1 : k'.elrEl1 = BitVec.ofNat 64 kprocProgOffset
  bytes : kprocProgOffset + text.length < 2 ^ 64 → ∀ v < 2 ^ 21,
    byteAt k'.memory.mem ((spaceAt a k.stack.len).block + v) =
      if kprocProgOffset ≤ v then
        text[v - kprocProgOffset]?.getD (byteAt k.memory.mem ((spaceAt a k.stack.len).block + v))
      else byteAt k.memory.mem ((spaceAt a k.stack.len).block + v)

theorem SpacesHeld.enter (h : k.SpacesHeld a) (hcap : k.stack.capacity = kprocMaxCount)
    (hroom : k.stack.len < kprocMaxCount) {text : List UInt8}
    (henter : k.kprocEnter Memory.ops text = some k') : EnteredSpace a k k' text := by
  obtain ⟨k₁, hrun, hentered⟩ := kprocEnter_spec Memory.ops hcap hroom text
  obtain rfl : k' = k₁ := Option.some.inj (henter.symm.trans hrun)
  obtain ⟨htable, hmemory⟩ := kprocEnter_memory hcap hroom henter
  obtain ⟨p, hp⟩ : ∃ p, p = spaceAt a k.stack.len := ⟨_, rfl⟩
  have hapart : p.Apart := hp ▸ ha.apart_spaceAt hroom
  have hgrants : spaceGrants k.memory.heap = (p, heapAt a (k.stack.len + 1)) := by
    rw [h.heap, hp]
    rfl
  obtain ⟨hroot, hheap, hin, hframe⟩ := Memory.createSpace_spec hgrants hapart
  have htable : (k'.stack.buffer k.stack.len).level0Table = setKernelSpace p.root := htable.trans hroot
  have hmemory : k'.memory =
      Memory.ops.bytecpy k'.ttbr0 kprocProgOffset text k.memory.createSpace.2 := hmemory
  have httbr0 : k'.ttbr0 % 2 ^ 48 = p.root := by
    rw [hentered.ttbr0]
    exact tagged_mod hapart.root.2 htable
  have hblock := hin.bytecpy_blockOnly hapart httbr0 kprocProgOffset text
  rw [← hmemory] at hblock
  refine ⟨⟨?_, fun i hi => ?_, fun i hi => ?_⟩, hentered.spEl0, hentered.elrEl1, fun hfit v hv => ?_⟩
  · rw [hblock.heap, hheap, hentered.len]
  · rw [hentered.len] at hi
    rcases Nat.lt_succ_iff_lt_or_eq.mp hi with hlt | rfl
    · rw [hentered.suspended i hlt, h.table i hlt]
    · rw [htable, hp]
  · rw [hentered.len] at hi
    rcases Nat.lt_succ_iff_lt_or_eq.mp hi with hlt | rfl
    · have hwords := fun w => ha.isTableWord_apart (hlt.trans hroom) hroom (w := w)
      refine (h.inMemory i hlt).congr fun w hw => ?_
      rw [hp] at hblock hframe
      rw [hblock.frame w (hwords w hw).2, hframe w ((hwords w hw).1 (Nat.ne_of_lt hlt))]
    · rw [← hp]
      exact hblock.inMemory hapart hin
  · have hold : byteAt k.memory.createSpace.2.mem (p.block + v) = byteAt k.memory.mem (p.block + v) :=
      byteAt_congr (hframe _ (hapart.tables _ (by omega) (by omega)))
    rw [← hp, hmemory, hin.byteAt_bytecpy hapart httbr0 hfit hv, hold]

/-- An exit leaves the heap as it was below the space of the process, and in memory changes
only the level-0 table of the process. -/
theorem SpacesHeld.exit (h : k.SpacesHeld a) (hlive : k.Live) (hdeep : 2 ≤ k.stack.len) {rs rs' : Frame}
    (hexit : k.kcallProcExit Memory.ops rs = some (rs', k')) : k'.SpacesHeld a ∧
      ∀ w, ¬InTable (spaceAt a (k.stack.len - 1)).root w → k'.memory.mem w = k.memory.mem w := by
  obtain ⟨rs₁, k₁, hrun, hexited⟩ := kcallProcExit_of_deep Memory.ops hlive hdeep rs
  obtain ⟨rfl, rfl⟩ := Prod.mk.inj (Option.some.inj (hexit.symm.trans hrun))
  have hmemory := kcallProcExit_memory hlive hdeep hexit
  have hlen := hexited.len
  have hle := hlive.le
  obtain ⟨d, hd⟩ : ∃ d, d = k.stack.len - 1 := ⟨_, rfl⟩
  have hmax : d < kprocMaxCount := by omega
  obtain ⟨m, hok, hheap, hframe⟩ := (h.inMemory d (by omega)).destroyContext (ha.apart_spaceAt hmax)
    (le_refl (Mmu.subtreeRounds 3))
  have hm : k'.memory = m := by
    rw [hmemory, ← hd, h.table d (by omega), Memory.ops_destroyContext_of_ok hok]
  refine ⟨⟨?_, fun i hi => ?_, fun i hi => ?_⟩, fun w hw => ?_⟩
  · have hbelow : k'.stack.len = d := by omega
    rw [hm, hheap, h.heap, hbelow, show k.stack.len = d + 1 by omega, ha.giveBack_spaceAt hmax]
  · rw [hexited.keeps]
    exact h.table i (by omega)
  · rw [hm]
    refine (h.inMemory i (by omega)).congr fun w hw => hframe w fun hroot => ?_
    exact (ha.isTableWord_apart (by omega) hmax hw).1 (by omega) (.inl hroot)
  · rw [hm]
    exact hframe w (hd ▸ hw)

theorem SpacesHeld.start (h : k.SpacesHeld a) (hlive : k.Live) (hroom : k.stack.len < kprocMaxCount)
    {rs rs' : Frame} (hprog : rs.uint32 0 < kprocProgCount)
    (hstart : k.kcallProcStart Memory.ops progs rs = some (rs', k')) :
    EnteredSpace a k k' (progs ⟨rs.uint32 0, hprog⟩) := by
  obtain ⟨k₁, hmemory, hlen, hcap, htable, henter⟩ := kcallProcStart_enter hlive hroom hprog hstart
  have hheld : k₁.SpacesHeld a := by
    refine ⟨?_, fun i hi => ?_, fun i hi => ?_⟩
    · rw [hmemory, hlen, h.heap]
    · rw [htable i, h.table i (hlen ▸ hi)]
    · rw [hmemory]
      exact h.inMemory i (hlen ▸ hi)
  obtain ⟨hheld', hsp, helr, hbytes⟩ := hheld.enter ha (hcap.trans hlive.capacity) (hlen ▸ hroom) henter
  rw [hmemory, hlen] at hbytes
  exact ⟨hheld', hsp, helr, hbytes⟩

end Spaces

end ProcKernel

namespace Machine

variable {a : MemoryAllocator} {first : Nat} {progs : KprocProgTab} {m m' : Machine Memory}
  {e : ProcEvent}

theorem Step.spacesHeld (ha : RoomForSpaces a first) (hlive : m.kernel.Live)
    (h : m.kernel.SpacesHeld a) (hstep : Step Memory.ops progs m e m') : m'.kernel.SpacesHeld a := by
  cases hstep with
  | user rs sp elr => exact h.memory rfl (fun _ _ _ _ => rfl) rfl rfl
  | @start rs kernel hprog hcall =>
    rcases Nat.lt_or_ge m.kernel.stack.len kprocMaxCount with hroom | hfull
    · exact (h.start ha hlive hroom hprog hcall).held
    · have hrun := ProcKernel.kcallProcStart_of_full Memory.ops progs hlive
        (le_antisymm hlive.le hfull) m.rs
      obtain ⟨-, rfl⟩ := Prod.mk.inj (Option.some.inj (hcall.symm.trans hrun))
      exact h
  | @exit rs kernel hcall =>
    rcases Nat.lt_or_ge m.kernel.stack.len 2 with hone | hdeep
    · have hrun := ProcKernel.kcallProcExit_of_last Memory.ops
        (le_antisymm (Nat.le_of_lt_succ hone) hlive.pos) m.rs
      obtain ⟨-, rfl⟩ := Prod.mk.inj (Option.some.inj (hcall.symm.trans hrun))
      exact h
    · exact (h.exit ha hlive hdeep hcall).1

/-- From the first program on, every process has its space. -/
theorem spacesHeld_of_exec (ha : RoomForSpaces a first) {k₀ k : ProcKernel Memory}
    (hcap : k₀.stack.capacity = kprocMaxCount) (hempty : k₀.stack.len = 0) (hheap : k₀.memory.heap = a)
    {prog : Nat} (hprog : prog < kprocProgCount) (hexec : k₀.kprocExec Memory.ops progs prog = some k) :
    k.SpacesHeld a := by
  have hheld : k₀.SpacesHeld a := by
    refine ⟨?_, fun i hi => absurd hi (by omega), fun i hi => absurd hi (by omega)⟩
    rw [hempty, hheap]
    rfl
  rw [ProcKernel.kprocExec, ProcKernel.kprocProgTab_of_lt progs hprog] at hexec
  exact (hheld.enter ha hcap (hempty ▸ by decide) hexec).held

end Machine

/-! ## Life cycle -/

namespace ProcKernel

/-- The level-0 table of process `i`, as the walk finds it. -/
def root (k : ProcKernel Memory) (i : Nat) : Nat := clearKernelSpace (k.stack.buffer i).level0Table

/-- The memory of the processes: nothing of the kernel's, nothing of one another's,
and for each of them one block. -/
structure SpacesApart (image : Nat) (tables : List Nat) (k : ProcKernel Memory) : Prop where
  kernel : ∀ i < k.stack.len, ∀ pa, Occupied k.memory.mem (k.root i) pa → ¬KernelOccupied image tables pa
  apart : ∀ i < k.stack.len, ∀ j < k.stack.len, i ≠ j →
    ∀ pa, Occupied k.memory.mem (k.root i) pa → ¬Occupied k.memory.mem (k.root j) pa
  block : ∀ i < k.stack.len, ∃ block, block % (2 * mbInB) = 0 ∧
    MapsBlock k.memory.mem (k.root i) block

theorem SpacesHeld.spacesApart {a : MemoryAllocator} {first image : Nat} {tables : List Nat}
    {k : ProcKernel Memory} (ha : RoomForSpaces a first)
    (hkernel : ∀ pa, KernelOccupied image tables pa → pa < first * 4096 ∨ peripherialsStart ≤ pa)
    (h : k.SpacesHeld a) (hlen : k.stack.len ≤ kprocMaxCount) : k.SpacesApart image tables := by
  have hmax : ∀ {i}, i < k.stack.len → i < kprocMaxCount := fun hi => Nat.lt_of_lt_of_le hi hlen
  have hroot : ∀ {i}, i < k.stack.len → k.root i = (spaceAt a i).root := fun hi => by
    rw [root, h.table _ hi, clearKernelSpace_setKernelSpace (ha.apart_spaceAt (hmax hi)).root.2]
  have howns : ∀ {i}, i < k.stack.len → ∀ pa, Occupied k.memory.mem (k.root i) pa ↔
      InStackedSpace (first + 3 * i) i (pa / 4096) := fun hi pa => by
    rw [hroot hi, (h.inMemory _ hi).occupied_iff (ha.apart_spaceAt (hmax hi)), ha.owns_iff (hmax hi)]
  have hroom := ha.room
  unfold kprocMaxCount at hmax hroom
  refine ⟨fun i hi pa hpa hpa' => ?_, fun i hi j hj hne pa hpa hpa' => ?_, fun i hi => ?_⟩
  · have := hmax hi
    have := hkernel pa hpa'
    rw [howns hi, InStackedSpace] at hpa
    rw [peripherialsStart] at this
    omega
  · have := hmax hi
    have := hmax hj
    rw [howns hi, InStackedSpace] at hpa
    rw [howns hj, InStackedSpace] at hpa'
    omega
  · have hapart := ha.apart_spaceAt (hmax hi)
    refine ⟨(spaceAt a i).block, hapart.block, ?_⟩
    rw [hroot hi]
    exact (h.inMemory i hi).mapsBlock hapart

end ProcKernel

namespace Machine

/-- In `m`, reached from `m₀`, the spaces of the processes are apart, every process but
the first can exit, and its exit leaves the allocator as it was just before the start that
made the process. -/
structure LifeCycle (image : Nat) (tables : List Nat) (progs : KprocProgTab) (m₀ : Machine Memory)
    (es : List ProcEvent) (m : Machine Memory) : Prop where
  apart : m.kernel.SpacesApart image tables
  exits : 2 ≤ m.kernel.stack.len → ∃ m₁ m', MatchingStart Memory.ops progs m₀ es m m₁ ∧
    Step Memory.ops progs m .exit m' ∧ m'.kernel.stack.len + 1 = m.kernel.stack.len
  restores : ∀ m₁ m', MatchingStart Memory.ops progs m₀ es m m₁ → Step Memory.ops progs m .exit m' →
    m'.kernel.memory.heap = m₁.kernel.memory.heap

/-- The life cycle of process memory, in every state reached from the first program on, from
what `memory_init` leaves for a RAM of 4 GB. -/
theorem lifeCycle (memory : Nat → BitVec 64) (mem : Nat → Nat) {image : Nat} (hpage : image % 4096 = 0)
    (hlow : 0x80000 < image) (hhigh : image ≤ 0x100000) (progs : KprocProgTab) {k₀ : ProcKernel Memory}
    (hcap : k₀.stack.capacity = kprocMaxCount) (hempty : k₀.stack.len = 0)
    (hmemory : k₀.memory = bootMemory memory mem image) {prog : Nat} (hprog : prog < kprocProgCount) :
    ∃ k, k₀.kprocExec Memory.ops progs prog = some k ∧
      ∀ (rs : Frame) (es : List ProcEvent) (m : Machine Memory),
        Exec (Step Memory.ops progs) ⟨k, rs⟩ es m →
        LifeCycle image (bootMemory memory mem image).tables progs ⟨k, rs⟩ es m := by
  obtain ⟨first, ha, hkernel⟩ := bootMemory_room memory mem hpage hlow hhigh
  obtain ⟨k, hexec, hlive₀, hone⟩ := ProcKernel.kprocExec_spec Memory.ops progs hcap hempty hprog
  have hheld₀ := spacesHeld_of_exec ha hcap hempty (by rw [hmemory]) hprog hexec
  refine ⟨k, hexec, fun rs es m hrun => ?_⟩
  have hinv : ∀ {es m}, Exec (Step Memory.ops progs) ⟨k, rs⟩ es m →
      m.kernel.Live ∧ m.kernel.SpacesHeld (bootMemory memory mem image).heap := fun hrun =>
    hrun.invariant
      (I := fun m => m.kernel.Live ∧ m.kernel.SpacesHeld (bootMemory memory mem image).heap)
      (fun _ _ _ h hstep => ⟨hstep.live h.1, hstep.spacesHeld ha h.1 h.2⟩) ⟨hlive₀, hheld₀⟩
  obtain ⟨hlive, hheld⟩ := hinv hrun
  refine ⟨hheld.spacesApart ha hkernel hlive.le, fun hdeep => ?_, fun m₁ m' hmatching hexit => ?_⟩
  · obtain ⟨m₁, hmatching, -⟩ := exists_matchingStart hlive₀ hone hrun hdeep
    obtain ⟨rs', k', hcall, hexited⟩ := ProcKernel.kcallProcExit_of_deep Memory.ops hlive hdeep m.rs
    exact ⟨m₁, ⟨k', rs'⟩, hmatching, .exit hcall, hexited.len⟩
  · obtain ⟨before, after, m₂, -, hbefore, -, -, hdepth, -⟩ := hmatching
    obtain ⟨hlive₁, hheld₁⟩ := hinv hbefore
    have hpos₁ := hlive₁.pos
    unfold depth at hdepth
    have hlen : m'.kernel.stack.len = m₁.kernel.stack.len := by
      cases hexit with
      | @exit rs' k' hcall =>
        obtain ⟨rs'', k'', hrun', hexited⟩ :=
          ProcKernel.kcallProcExit_of_deep Memory.ops hlive (by omega) m.rs
        obtain ⟨-, rfl⟩ := Prod.mk.inj (Option.some.inj (hcall.symm.trans hrun'))
        have := hexited.len
        simp only
        omega
    rw [(hexit.spacesHeld ha hlive hheld).heap, hheld₁.heap, hlen]

/-- The kernel before its first program, with an image that ends at 1 MB in empty memory. -/
def bootedKernel : ProcKernel Memory :=
  { stack := noProcess.stack, memory := bootMemory (fun _ => 0#64) (fun _ => 0) 0x100000
    ttbr0 := 0, spEl0 := 0, elrEl1 := 0 }

theorem bootedKernel_memory :
    bootedKernel.memory = bootMemory (fun _ => 0#64) (fun _ => 0) 0x100000 := by
  rw [bootedKernel]

theorem lifeCycle_bootedKernel :
    ∃ k, bootedKernel.kprocExec Memory.ops noText 0 = some k ∧
      ∀ (rs : Frame) (es : List ProcEvent) (m : Machine Memory),
        Exec (Step Memory.ops noText) ⟨k, rs⟩ es m →
        LifeCycle 0x100000 (bootMemory (fun _ => 0#64) (fun _ => 0) 0x100000).tables noText
          ⟨k, rs⟩ es m :=
  lifeCycle (fun _ => 0#64) (fun _ => 0) (by decide) (by decide) (by decide) noText rfl rfl
    bootedKernel_memory (by decide)

end Machine

end PiVOS
