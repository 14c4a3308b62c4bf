-- SUMMARY: Stores through both halves of the address space, and the calls that make them.
import PiVOS.Memory.UserAccess
import PiVOS.ProcFresh

/-!
# Both halves

Programs store through both halves of the address space, and so does the kernel on their
behalf, with its own rights. As long as no copy is pointed at the kernel's first gigabyte,
all of this ends in the block of the running program or behind that gigabyte.
-/

namespace PiVOS

/-! ## Stores -/

namespace Memory

/-- A store to a translated address; one that faults changes nothing. -/
def storeAt (m : Memory) (c : UInt8) : Option Nat → Memory
  | some pa => { m with mem := storeByte m.mem pa c }
  | none => m

/-- A store of a program. -/
def el0Store (m : Memory) (ttbr0 ttbr1 va : Nat) (c : UInt8) : Memory :=
  m.storeAt c (el0Address m.mem ttbr0 ttbr1 .store va)

/-- A store of the kernel. -/
def el1Store (m : Memory) (ttbr0 ttbr1 va : Nat) (c : UInt8) : Memory :=
  m.storeAt c (el1Address m.mem ttbr0 ttbr1 .store va)

theorem userStore_eq_storeAt (m : Memory) (ttbr0 va : Nat) (c : UInt8) :
    m.userStore ttbr0 va c = m.storeAt c (m.userAddress ttbr0 va) := by
  rw [userStore]
  cases m.userAddress ttbr0 va <;> rfl

def el1Load (m : Memory) (ttbr0 ttbr1 va : Nat) : Option UInt8 :=
  (el1Address m.mem ttbr0 ttbr1 .load va).map (byteAt m.mem)

/-- The memory operations of a kernel whose own tables are in `ttbr1`. -/
def kernelOps (ttbr1 : Nat) : MemoryOps Memory :=
  { ops with
    load := fun m ttbr0 va => (m.el1Load ttbr0 ttbr1 va).getD 0
    store := fun m ttbr0 va c => m.el1Store ttbr0 ttbr1 va c
    reaches := fun m ttbr0 access va => (el1Address m.mem ttbr0 ttbr1 access va).isSome }

/-- Contexts are made, filled and destroyed as before. -/
theorem kernelOps_contexts (ttbr1 : Nat) : (kernelOps ttbr1).createContext = ops.createContext ∧
    (kernelOps ttbr1).mapRegion = ops.mapRegion ∧
    (kernelOps ttbr1).destroyContext = ops.destroyContext := by
  refine ⟨?_, ?_, ?_⟩ <;> dsimp only [kernelOps]

end Memory

namespace Space

variable {p : Space} {m m' : Memory} {ttbr0 ttbr1 : Nat}

/-- From `m` to `m'` nothing changed but the block and what lies behind 1 GB. -/
structure OwnOnly (p : Space) (m m' : Memory) : Prop where
  heap : m'.heap = m.heap
  frame : ∀ w < 2 ^ 27, (∀ pa, p.block ≤ pa → pa < p.block + 2 ^ 21 → w ≠ pa / 8) → m'.mem w = m.mem w

theorem OwnOnly.refl (p : Space) (m : Memory) : OwnOnly p m m := ⟨rfl, fun _ _ _ => rfl⟩

theorem OwnOnly.trans {m'' : Memory} (h : OwnOnly p m m') (h' : OwnOnly p m' m'') : OwnOnly p m m'' :=
  ⟨h'.heap.trans h.heap, fun w hlow hw => (h'.frame w hlow hw).trans (h.frame w hlow hw)⟩

theorem OwnOnly.of_storeByte {pa : Nat} (h : p.block ≤ pa ∧ pa < p.block + 2 ^ 21 ∨ 2 ^ 30 ≤ pa)
    (m : Memory) (c : UInt8) : OwnOnly p m { m with mem := storeByte m.mem pa c } where
  heap := rfl
  frame w hlow hw := by
    refine storeByte_of_ne _ _ _ ?_
    rcases h with ⟨hlo, hhi⟩ | hupper
    · exact hw pa hlo hhi
    · omega

/-- The tables and the block are where `TCR_EL1` admits addresses. -/
structure InReach (p : Space) : Prop where
  root : p.root < physicalEnd
  level1 : p.level1 < physicalEnd
  level2 : p.level2 < physicalEnd
  block : p.block + 2 ^ 21 ≤ physicalEnd

theorem InReach.tables (hr : p.InReach) {a : Nat} (ha : p.tree.HasTable a) : a < physicalEnd := by
  obtain ⟨level, n, hnode⟩ := ha
  obtain ⟨-, ⟨-, rfl⟩ | ⟨-, rfl⟩ | ⟨-, rfl⟩⟩ := tree_node_eq_some.mp hnode
  · exact hr.root
  · exact hr.level1
  · exact hr.level2

/-- Where `va` of the lower half lies, and the descriptor that says so. -/
theorem InMemory.translationAt_eq (hm : p.InMemory m.mem) (hp : p.Apart) (hr : p.InReach)
    (httbr0 : ttbr0 % 2 ^ 48 = p.root) (ttbr1 : Nat) {va : Nat} (hva : va < 2 ^ 48) :
    translationAt m.mem ttbr0 ttbr1 va =
      if va < 2 ^ 21 then some (p.block + va, p.blockEntry) else none := by
  have hslot : slotNumber 2 va = 0 ↔ va < 2 ^ 21 := by
    simp only [slotNumber, regionSize]
    omega
  have htree := hm.holdsTree hp
  rw [translationAt_lower hva, httbr0]
  by_cases hlow : va < 2 ^ 21
  · have hleaf : p.tree.leaf 2 (slotNumber 2 va) = some p.blockEntry :=
      tree_leaf_eq_some.mpr ⟨rfl, hslot.mpr hlow, rfl⟩
    have hblock := hr.block
    have hpa : (translate 2 p.blockEntry va).pa = p.block + va := by
      rw [translate, outputAddress_blockEntry hp, regionSize, Nat.mod_eq_of_lt hlow]
    rw [htree.walkTranslation_of_leaf (fun _ => hr.tables) hva hleaf, hpa, if_pos (by omega), if_pos hlow]
  · have hnone : walkEntry m.mem p.root va = none := by
      cases hfound : walkEntry m.mem p.root va with
      | none => rfl
      | some found =>
        obtain ⟨hlevel, hzero, -⟩ := tree_leaf_eq_some.mp ((htree.walkEntry_eq_some hva).mp hfound)
        rw [hlevel] at hzero
        exact absurd (hslot.mp hzero) hlow
    rw [walkTranslation, hnone, if_neg hlow, Option.bind_none]

theorem accessRights_blockEntry (p : Space) :
    (Mmu.accessRights p.blockEntry).af = 1 ∧ (Mmu.accessRights p.blockEntry).ap = 1 := by
  simp only [Mmu.accessRights, bitField, blockEntry, mmuBlockEntryBits_two]
  omega

/-- An address is in the lower half, in the kernel's or not mapped. -/
theorem inHalf (va : Nat) : va < 2 ^ 48 ∨ (∃ v < 2 ^ 48, va = kernelSpaceMask + v) ∨
    ∀ mem ttbr0 ttbr1, translationAt mem ttbr0 ttbr1 va = none := by
  have hmask : kernelSpaceMask = 2 ^ 64 - 2 ^ 48 := by decide
  rcases Nat.lt_or_ge va (2 ^ 48) with hlow | hhigh
  · exact .inl hlow
  · by_cases hupper : kernelSpaceMask ≤ va ∧ va < 2 ^ 64
    · exact .inr (.inl ⟨va - kernelSpaceMask, by omega, by omega⟩)
    · exact .inr (.inr (translationAt_between hhigh (by omega)))

section

variable (hm : p.InMemory m.mem) (hp : p.Apart) (hr : p.InReach) (httbr0 : ttbr0 % 2 ^ 48 = p.root)

include hm hp hr httbr0

/-- In the lower half, a program and the kernel reach the block. -/
theorem InMemory.el0Address_lower {va : Nat} (hva : va < 2 ^ 48) (access : Access) :
    el0Address m.mem ttbr0 ttbr1 access va = if va < 2 ^ 21 then some (p.block + va) else none := by
  obtain ⟨haf, hap⟩ := p.accessRights_blockEntry
  have hat := hm.translationAt_eq hp hr httbr0 ttbr1 hva
  by_cases hlow : va < 2 ^ 21
  · rw [if_pos hlow] at hat ⊢
    rw [el0Address_of_some hat, permits_of_rights haf hap, if_pos rfl]
  · rw [if_neg hlow] at hat ⊢
    exact el0Address_of_none hat access

theorem InMemory.el1Address_lower {va : Nat} (hva : va < 2 ^ 48) (access : Access) :
    el1Address m.mem ttbr0 ttbr1 access va = if va < 2 ^ 21 then some (p.block + va) else none := by
  obtain ⟨haf, hap⟩ := p.accessRights_blockEntry
  have hat := hm.translationAt_eq hp hr httbr0 ttbr1 hva
  by_cases hlow : va < 2 ^ 21
  · rw [if_pos hlow] at hat ⊢
    rw [el1Address_of_some hat, permitsKernel_of_rights haf hap.le, if_pos rfl]
  · rw [if_neg hlow] at hat ⊢
    exact el1Address_of_none hat access

/-- With the kernel's half as `memory_init` leaves it, a program stores to its block and
behind 1 GB only. -/
theorem InMemory.el0Store_ownOnly (hhalf : KernelHalf m.mem ttbr1) (va : Nat) (c : UInt8) :
    OwnOnly p m (m.el0Store ttbr0 ttbr1 va c) := by
  rw [Memory.el0Store]
  rcases inHalf va with hlow | ⟨v, hv, rfl⟩ | hout
  · rw [hm.el0Address_lower hp hr httbr0 hlow]
    split_ifs with hblock
    · exact .of_storeByte (.inl ⟨by omega, by omega⟩) m c
    · exact .refl p m
  · rw [hhalf.user ttbr0 .store v hv]
    split_ifs with hupper
    · exact .of_storeByte (.inr hupper.1) m c
    · exact .refl p m
  · rw [el0Address_of_none (hout m.mem ttbr0 ttbr1)]
    exact .refl p m

/-- So does the kernel, unless it is led into the first gigabyte of its half. -/
theorem InMemory.el1Store_ownOnly (hhalf : KernelHalf m.mem ttbr1) {va : Nat}
    (hspares : ∀ pa < 2 ^ 30, va ≠ kernelSpaceMask + pa) (c : UInt8) :
    OwnOnly p m (m.el1Store ttbr0 ttbr1 va c) := by
  rw [Memory.el1Store]
  rcases inHalf va with hlow | ⟨v, hv, rfl⟩ | hout
  · rw [hm.el1Address_lower hp hr httbr0 hlow]
    split_ifs with hblock
    · exact .of_storeByte (.inl ⟨by omega, by omega⟩) m c
    · exact .refl p m
  · rw [hhalf.kernel ttbr0 .store v hv]
    split_ifs with hupper
    · exact .of_storeByte (.inr (Nat.le_of_not_lt fun hlow => hspares v hlow rfl)) m c
    · exact .refl p m
  · rw [el1Address_of_none (hout m.mem ttbr0 ttbr1)]
    exact .refl p m

/-- In the lower half, the kernel's store is the one through the program's tables. -/
theorem InMemory.el1Store_lower {va : Nat} (hva : va < 2 ^ 48) (c : UInt8) :
    m.el1Store ttbr0 ttbr1 va c = m.userStore ttbr0 va c := by
  rw [Memory.el1Store, Memory.userStore_eq_storeAt, hm.el1Address_lower hp hr httbr0 hva,
    hm.userAddress_eq hp httbr0]

end

/-- So is copying. -/
theorem InMemory.bytecpy_kernelOps (hp : p.Apart) (hr : p.InReach) (httbr0 : ttbr0 % 2 ^ 48 = p.root)
    (hm : p.InMemory m.mem) (ttbr1 : Nat) {va : Nat} {bytes : List UInt8}
    (hfit : va + bytes.length ≤ 2 ^ 48) :
    (Memory.kernelOps ttbr1).bytecpy ttbr0 va bytes m = Memory.ops.bytecpy ttbr0 va bytes m := by
  induction bytes generalizing va m with
  | nil => rw [MemoryOps.bytecpy, MemoryOps.bytecpy]
  | cons c bytes ih =>
    rw [List.length_cons] at hfit
    have hstore : (Memory.kernelOps ttbr1).store m ttbr0 va c = Memory.ops.store m ttbr0 va c :=
      hm.el1Store_lower hp hr httbr0 (by omega) c
    have hblock : BlockOnly p m (Memory.ops.store m ttbr0 va c) :=
      hm.userStore_blockOnly hp httbr0 va c
    have hnext : u64 (va + 1) = va + 1 := u64_of_lt (by omega)
    rw [MemoryOps.bytecpy, MemoryOps.bytecpy, hstore, hnext]
    exact ih (hblock.inMemory hp hm) (by omega)

end Space

theorem RoomForSpaces.inReach_spaceAt {a : MemoryAllocator} {first d : Nat} (ha : RoomForSpaces a first)
    (hd : d < kprocMaxCount) : (spaceAt a d).InReach := by
  have hroom := ha.room
  rw [(ha.spaceAt_grants hd).1]
  unfold kprocMaxCount at hd hroom
  constructor <;> simp only [stackedSpace, physicalEnd_eq] <;> omega

/-! ## The kernel's memory -/

/-- The pages below `first` hold what they hold in `boot`. -/
def SameBelow (first : Nat) (boot mem : Nat → Nat) : Prop := ∀ w < first * 512, mem w = boot w

/-- The kernel's half is as it should be as long as the pages below `first` stay as they are. -/
def HalfBelow (first : Nat) (boot : Nat → Nat) (ttbr1 : Nat) : Prop :=
  ∀ mem, SameBelow first boot mem → KernelHalf mem ttbr1

section Spaces

variable {a : MemoryAllocator} {first i : Nat} {boot : Nat → Nat} {m m' : Memory}
  {ttbr0 ttbr1 : Nat} (ha : RoomForSpaces a first) (hi : i < kprocMaxCount)

include ha hi

/-- What is not in the block and not behind 1 GB stays: the pages of the kernel and the
tables and the blocks of the others. -/
theorem Space.OwnOnly.sameBelow (h : (spaceAt a i).OwnOnly m m') (hsame : SameBelow first boot m.mem) :
    SameBelow first boot m'.mem := by
  have hroom := ha.room
  unfold kprocMaxCount at hroom
  refine fun w hw => (h.frame w (by omega) fun pa hlo _ => ?_).trans (hsame w hw)
  rw [ha.block_eq hi] at hlo
  omega

theorem Space.OwnOnly.tables (h : (spaceAt a i).OwnOnly m m') {j w : Nat} (hj : j < kprocMaxCount)
    (hw : (spaceAt a j).IsTableWord w) : m'.mem w = m.mem w := by
  refine h.frame w ?_ (ha.isTableWord_apart hj hi hw).2
  have hroom := ha.room
  rw [ha.isTableWord_iff hj] at hw
  unfold kprocMaxCount at hroom hj
  omega

theorem Space.OwnOnly.byteAt_block (h : (spaceAt a i).OwnOnly m m') {j va : Nat}
    (hj : j < kprocMaxCount) (hne : i ≠ j) (hva : va < 2 ^ 21) :
    byteAt m'.mem ((spaceAt a j).block + va) = byteAt m.mem ((spaceAt a j).block + va) := by
  refine byteAt_congr (h.frame _ ?_ fun pa hlo hhi => ?_)
  · rw [ha.block_eq hj]
    unfold kprocMaxCount at hj
    omega
  · rw [ha.block_eq hi] at hlo hhi
    rw [ha.block_eq hj]
    omega

/-- Copying that spares the kernel's first gigabyte. -/
theorem Space.InMemory.bytecpy_ownOnly (hhalf : HalfBelow first boot ttbr1)
    (httbr0 : ttbr0 % 2 ^ 48 = (spaceAt a i).root) (hm : (spaceAt a i).InMemory m.mem)
    (hsame : SameBelow first boot m.mem) {va : Nat} (hva : va < 2 ^ 64) {bytes : List UInt8}
    (hspares : ∀ k < bytes.length, ∀ pa < 2 ^ 30, u64 (va + k) ≠ kernelSpaceMask + pa) :
    (spaceAt a i).OwnOnly m ((Memory.kernelOps ttbr1).bytecpy ttbr0 va bytes m) := by
  induction bytes generalizing va m with
  | nil => exact .refl _ m
  | cons c bytes ih =>
    have hstore : (spaceAt a i).OwnOnly m ((Memory.kernelOps ttbr1).store m ttbr0 va c) := by
      refine hm.el1Store_ownOnly (ha.apart_spaceAt hi) (ha.inReach_spaceAt hi) httbr0 (hhalf _ hsame)
        (fun pa hpa => ?_) c
      have hfirst := hspares 0 (Nat.zero_lt_succ _) pa hpa
      rwa [Nat.add_zero, u64_of_lt hva] at hfirst
    refine hstore.trans (ih (hm.congr fun w hw => hstore.tables ha hi hi hw)
      (hstore.sameBelow ha hi hsame) (u64_lt _) fun k hk pa hpa => ?_)
    have hnext := hspares (k + 1) (Nat.succ_lt_succ hk) pa hpa
    simp only [u64] at hnext ⊢
    rwa [Nat.mod_add_mod, Nat.add_assoc, Nat.add_comm 1 k]

end Spaces

/-! ## The calls with both halves -/

namespace ProcKernel

variable {a : MemoryAllocator} {first ttbr1 : Nat} {progs : KprocProgTab} {k k' : ProcKernel Memory}

theorem kcallProcExit_kernelOps (k : ProcKernel Memory) (rs : Frame) :
    k.kcallProcExit (Memory.kernelOps ttbr1) rs = k.kcallProcExit Memory.ops rs := by
  rw [kcallProcExit, kcallProcExit, kprocExit, kprocExit, kprocFree, kprocFree,
    (Memory.kernelOps_contexts ttbr1).2.2]

/-- The memory into which the text of a new process is copied. -/
structure SpaceReady (p : Space) (k k' : ProcKernel Memory) (m : Memory) : Prop where
  inMemory : p.InMemory m.mem
  ttbr0 : k'.ttbr0 % 2 ^ 48 = p.root
  frame : ∀ w, ¬p.IsTableWord w → m.mem w = k.memory.mem w

theorem SpacesHeld.spaceReady (ha : RoomForSpaces a first) (h : k.SpacesHeld a)
    (hcap : k.stack.capacity = kprocMaxCount) (hroom : k.stack.len < kprocMaxCount) {ops : MemoryOps Memory}
    (hcreate : ops.createContext = Memory.ops.createContext)
    (hmap : ops.mapRegion = Memory.ops.mapRegion) {text : List UInt8}
    (henter : k.kprocEnter ops text = some k') :
    SpaceReady (spaceAt a k.stack.len) k k' k.memory.createSpace.2 ∧
      k'.memory = ops.bytecpy k'.ttbr0 kprocProgOffset text k.memory.createSpace.2 := by
  obtain ⟨k₁, hrun, hentered⟩ := kprocEnter_spec ops hcap hroom text
  obtain rfl : k' = k₁ := Option.some.inj (henter.symm.trans hrun)
  obtain ⟨htable, hmemory⟩ := kprocEnter_memory hcap hroom henter
  rw [hcreate, hmap] at hmemory
  rw [hcreate] at htable
  have hapart := ha.apart_spaceAt hroom
  have hgrants : spaceGrants k.memory.heap = (spaceAt a k.stack.len, heapAt a (k.stack.len + 1)) := by
    rw [h.heap]
    rfl
  obtain ⟨hroot, -, hin, hframe⟩ := Memory.createSpace_spec hgrants hapart
  refine ⟨⟨hin, ?_, hframe⟩, hmemory⟩
  rw [hentered.ttbr0]
  exact tagged_mod hapart.root.2 (htable.trans hroot)

/-- A text in the lower half is copied the same way. -/
theorem SpacesHeld.kprocEnter_kernelOps (ha : RoomForSpaces a first) (h : k.SpacesHeld a)
    (hcap : k.stack.capacity = kprocMaxCount) (hroom : k.stack.len < kprocMaxCount) {text : List UInt8}
    (hfit : kprocProgOffset + text.length ≤ 2 ^ 48) :
    k.kprocEnter (Memory.kernelOps ttbr1) text = k.kprocEnter Memory.ops text := by
  obtain ⟨k₁, hrun, -⟩ := kprocEnter_spec (Memory.kernelOps ttbr1) hcap hroom text
  obtain ⟨hcreate, hmap, -⟩ := Memory.kernelOps_contexts ttbr1
  obtain ⟨hready, -⟩ := h.spaceReady ha hcap hroom hcreate hmap hrun
  have hcopy := hready.inMemory.bytecpy_kernelOps (ha.apart_spaceAt hroom) (ha.inReach_spaceAt hroom)
    hready.ttbr0 ttbr1 hfit
  have halloc := Stack.alloc_of_room (hcap ▸ hroom) (hcap ▸ by decide)
  rw [kprocEnter, kprocAlloc, halloc] at hrun
  obtain rfl := Option.some.inj hrun
  rw [kprocEnter, kprocEnter, kprocAlloc, kprocAlloc, halloc]
  have hspace : k.memory.createSpace.2 = Memory.ops.mapRegion (Memory.ops.createContext k.memory).2
      (Memory.ops.createContext k.memory).1 kprocRegion .alloc := rfl
  simp only [Option.map_some, kprocInit, kprocMemSwitch, hcreate, hmap, hspace] at hcopy ⊢
  rw [hcopy]

/-- A start changes memory in the space of the new process only. -/
theorem SpacesHeld.start_kernelOps (ha : RoomForSpaces a first) (h : k.SpacesHeld a) (hlive : k.Live)
    (hroom : k.stack.len < kprocMaxCount) {rs rs' : Frame} (hprog : rs.uint32 0 < kprocProgCount)
    (hfit : kprocProgOffset + (progs ⟨rs.uint32 0, hprog⟩).length ≤ 2 ^ 48)
    (hstart : k.kcallProcStart (Memory.kernelOps ttbr1) progs rs = some (rs', k')) :
    k'.SpacesHeld a ∧ ∀ w, ¬(spaceAt a k.stack.len).IsTableWord w →
      (∀ pa, (spaceAt a k.stack.len).block ≤ pa → pa < (spaceAt a k.stack.len).block + 2 ^ 21 →
        w ≠ pa / 8) → k'.memory.mem w = k.memory.mem w := by
  obtain ⟨k₁, hmemory, hlen, hcap, htable, henter⟩ := kcallProcStart_enter hlive hroom hprog hstart
  have hheld : k₁.SpacesHeld a := by
    refine ⟨?_, fun i hi => ?_, fun i hi => ?_⟩
    · rw [hmemory, hlen, h.heap]
    · rw [htable i, h.table i (hlen ▸ hi)]
    · rw [hmemory]
      exact h.inMemory i (hlen ▸ hi)
  have hcap₁ : k₁.stack.capacity = kprocMaxCount := hcap.trans hlive.capacity
  rw [hheld.kprocEnter_kernelOps ha hcap₁ (hlen ▸ hroom) hfit] at henter
  obtain ⟨hready, hcopied⟩ := hheld.spaceReady ha hcap₁ (hlen ▸ hroom) rfl rfl henter
  refine ⟨(hheld.enter ha hcap₁ (hlen ▸ hroom) henter).held, fun w hw hblock => ?_⟩
  rw [← hlen] at hw hblock
  have hcopy := hready.inMemory.bytecpy_blockOnly (ha.apart_spaceAt (hlen ▸ hroom)) hready.ttbr0
    kprocProgOffset (progs ⟨rs.uint32 0, hprog⟩)
  rw [hcopied, hcopy.frame w hblock, hready.frame w hw, hmemory]

end ProcKernel

namespace Kernel

section Copies

variable {M : Type} {b : Board} {ops : MemoryOps M} {progs : KprocProgTab} {kdevs : Kdevs (Kernel M)}
  {kcalls : Kcalls (Kernel M)} {s s' : Kernel M}

theorem readLoop_le {left idx idx' : Nat} {dst dst' : Nat → UInt8} {dev dev' : DevUart}
    (h : DevUart.readLoop b left idx dst dev = some (idx', dst', dev')) : idx' ≤ idx + left := by
  induction left generalizing idx dst dev with
  | zero =>
    obtain ⟨rfl, -⟩ := Prod.mk.inj (Option.some.inj h)
    exact Nat.le_refl _
  | succ left ih =>
    rw [DevUart.readLoop] at h
    cases hsync : dev.syncRead b with
    | none =>
      rw [hsync] at h
      cases h
    | some synced =>
      rw [hsync] at h
      simp only at h
      split_ifs at h
      · obtain ⟨rfl, -⟩ := Prod.mk.inj (Option.some.inj h)
        omega
      · have := ih h
        omega

/-- Of the device calls, only a read changes the processes: it copies at most as many bytes
as asked for to where it was told. -/
theorem kcallDispatch_copies (hdevs : kdevs.Lists (devices b ops))
    (hcalls : kcalls.Lists (calls ops progs kdevs)) {esr : Nat}
    (hio : 2 ≤ callIdOf esr ∧ callIdOf esr < 5) {rs rs' : Frame}
    (h : kcallDispatch kcalls esr s rs = some (rs', s')) : s'.proc = s.proc ∨ callIdOf esr = 3 ∧
      ∃ bytes : List UInt8, bytes.length ≤ rs.uint32 2 ∧ s'.proc =
        { s.proc with memory := ops.bytecpy s.proc.ttbr0 (rs 1).toNat bytes s.proc.memory } := by
  obtain hid | hid | hid : callIdOf esr = 2 ∨ callIdOf esr = 3 ∨ callIdOf esr = 4 := by omega
  · have hbound : kcalls.Bound (callIdOf esr) (kcallIoWrite kdevs) := hcalls.bound (by rw [hid]; rfl)
    rw [kcallDispatch_of_bound hbound] at h
    obtain ⟨⟨r, s₁⟩, hrun, hresult⟩ := Option.map_eq_some_iff.mp h
    obtain ⟨-, rfl⟩ := Prod.mk.inj hresult
    rcases kdevIo_cases ops hdevs _ hrun with rfl | hwrite
    · exact .inl rfl
    · obtain ⟨uart, -, rfl⟩ := devUart_write ops hwrite
      exact .inl rfl
  · have hbound : kcalls.Bound (callIdOf esr) (kcallIoRead kdevs) := hcalls.bound (by rw [hid]; rfl)
    rw [kcallDispatch_of_bound hbound] at h
    obtain ⟨⟨r, s₁⟩, hrun, hresult⟩ := Option.map_eq_some_iff.mp h
    obtain ⟨-, rfl⟩ := Prod.mk.inj hresult
    rcases kdevIo_cases ops hdevs _ hrun with rfl | hread
    · exact .inl rfl
    · obtain ⟨bytes, uart, hkdev, rfl⟩ := devUart_read ops hread
      obtain ⟨⟨idx, dst, dev⟩, hloop, heq'⟩ := Option.map_eq_some_iff.mp hkdev
      obtain ⟨rfl, -⟩ := Prod.mk.inj heq'
      have hle := readLoop_le hloop
      refine .inr ⟨hid, (List.range idx).map bytes, ?_, rfl⟩
      rw [List.length_map, List.length_range]
      omega
  · have hbound : kcalls.Bound (callIdOf esr) (kcallIoPollOut kdevs) := hcalls.bound (by rw [hid]; rfl)
    rw [kcallDispatch_of_bound hbound] at h
    obtain ⟨⟨r, s₁⟩, hrun, hresult⟩ := Option.map_eq_some_iff.mp h
    obtain ⟨-, rfl⟩ := Prod.mk.inj hresult
    rcases kdevIo_cases ops hdevs _ hrun with rfl | hpool
    · exact .inl rfl
    · obtain ⟨-, rfl⟩ := Prod.mk.inj (Option.some.inj hpool)
      exact .inl rfl

end Copies

end Kernel

end PiVOS
