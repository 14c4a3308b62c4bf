-- SUMMARY: What a program can tell of others when it starts.
import PiVOS.CallTables
import PiVOS.ProcSpaces

/-!
# Freshly started programs

A program starts with the registers of its parent and with whatever the pages of its
block held. Neither is cleared, so the state it starts in depends on both, and on
nothing else but the program itself.
-/

namespace PiVOS

/-! ## The user's view -/

/-- What a program can tell from its registers and its memory. -/
@[ext] structure UserView where
  generalRegs : Fin 31 → BitVec 64
  sp : BitVec 64
  elr : BitVec 64
  region : Nat → Option UInt8

theorem Frame.setStatus_castSucc (rs : Frame) (status : Int) {i : Fin 31} (hi : i ≠ 0) :
    rs.setStatus status i.castSucc = rs i.castSucc :=
  Function.update_of_ne (fun hzero => hi (Fin.castSucc_injective 31 hzero)) _ _

/-- `va` lies in the text of a program. -/
def InText (text : List UInt8) (va : Nat) : Prop :=
  kprocProgOffset ≤ va ∧ va < kprocProgOffset + text.length

/-- The view of a program that starts with its text in a block that holds `left`, with `rs`
the frame of its parent. -/
def initialView (text : List UInt8) (rs : Frame) (left : Nat → UInt8) : UserView where
  generalRegs i := if i = 0 then BitVec.ofInt 64 Kstatus.procOk else rs i.castSucc
  sp := BitVec.ofNat 64 kprocProgOffset
  elr := BitVec.ofNat 64 kprocProgOffset
  region va :=
    if va < 2 ^ 21 then
      some (if kprocProgOffset ≤ va then text[va - kprocProgOffset]?.getD (left va) else left va)
    else none

theorem initialView_region {text : List UInt8} {rs : Frame} {left : Nat → UInt8} {va : Nat}
    (hva : va < 2 ^ 21) (hout : ¬InText text va) :
    (initialView text rs left).region va = some (left va) := by
  simp only [initialView, if_pos hva]
  by_cases hlow : kprocProgOffset ≤ va
  · have hend : text.length ≤ va - kprocProgOffset := by
      unfold InText at hout
      omega
    rw [if_pos hlow, List.getElem?_eq_none hend, Option.getD_none]
  · rw [if_neg hlow]

theorem initialView_region_of_inText {text : List UInt8} {rs : Frame} {left : Nat → UInt8} {va : Nat}
    (hva : va < 2 ^ 21) (hin : InText text va) :
    (initialView text rs left).region va = text[va - kprocProgOffset]? := by
  obtain ⟨hlow, hhigh⟩ := hin
  have hindex : va - kprocProgOffset < text.length := by omega
  simp only [initialView, if_pos hva, if_pos hlow, List.getElem?_eq_getElem hindex, Option.getD_some]

/-- Two programs with the same text start alike just when their parents' registers from
`x1` on agree and their blocks hold the same outside the text. -/
theorem initialView_eq_iff {text : List UInt8} {rs₁ rs₂ : Frame} {left₁ left₂ : Nat → UInt8} :
    initialView text rs₁ left₁ = initialView text rs₂ left₂ ↔
      (∀ i : Fin 31, i ≠ 0 → rs₁ i.castSucc = rs₂ i.castSucc) ∧
        ∀ va < 2 ^ 21, ¬InText text va → left₁ va = left₂ va := by
  constructor
  · intro h
    refine ⟨fun i hi => ?_, fun va hva hout => ?_⟩
    · have hreg := congrFun (congrArg UserView.generalRegs h) i
      simp only [initialView, if_neg hi] at hreg
      exact hreg
    · have hbyte := congrFun (congrArg UserView.region h) va
      rw [initialView_region hva hout, initialView_region hva hout] at hbyte
      exact Option.some.inj hbyte
  · rintro ⟨hregs, hleft⟩
    have hgeneral : (initialView text rs₁ left₁).generalRegs =
        (initialView text rs₂ left₂).generalRegs := by
      funext i
      by_cases hi : i = 0
      · simp only [initialView, if_pos hi]
      · simp only [initialView, if_neg hi, hregs i hi]
    have hregion : (initialView text rs₁ left₁).region = (initialView text rs₂ left₂).region := by
      funext va
      by_cases hva : va < 2 ^ 21
      · by_cases hin : InText text va
        · rw [initialView_region_of_inText hva hin, initialView_region_of_inText hva hin]
        · rw [initialView_region hva hin, initialView_region hva hin, hleft va hva hin]
      · simp only [initialView, if_neg hva]
    exact UserView.ext hgeneral rfl rfl hregion

namespace Kernel

/-- The general registers of the frame, and what the tables in `TTBR0` let the program see. -/
def userView (s : Kernel Memory) (rs : Frame) : UserView where
  generalRegs i := rs i.castSucc
  sp := s.proc.spEl0
  elr := s.proc.elrEl1
  region := s.proc.memory.userLoad s.proc.ttbr0

/-- What the block of the next process holds. -/
def leftover (s : Kernel Memory) (va : Nat) : UInt8 :=
  byteAt s.proc.memory.mem ((s.proc.stack.len + 1) * 2 ^ 21 + va)

/-! ## Histories -/

/-- The call writes nothing to the first gigabyte of the kernel's half, which programs
cannot write to themselves. -/
def SparesKernel (esr : Nat) (rs : Frame) : Prop :=
  callIdOf esr = 3 → ∀ i < rs.uint32 2, ∀ pa < 2 ^ 30, u64 ((rs 1).toNat + i) ≠ kernelSpaceMask + pa

/-- The kernels that programs can bring about from the first program on. Their memory is
their block and, through the map of the kernel, everything behind the first gigabyte;
their general registers are arbitrary at every call, and so is the UART. -/
inductive History (progs : KprocProgTab) (kcalls : Kcalls (Kernel Memory)) (k₀ : ProcKernel Memory) :
    Kernel Memory → Prop
  | boot {proc : ProcKernel Memory} (uart : DevUart)
      (hexec : k₀.kprocExec Memory.ops progs 0 = some proc) :
    History progs kcalls k₀ { proc, uart }
  | registers {s : Kernel Memory} (h : History progs kcalls k₀ s) (spEl0 elrEl1 : BitVec 64) :
    History progs kcalls k₀ { s with proc := { s.proc with spEl0, elrEl1 } }
  | store {s : Kernel Memory} (h : History progs kcalls k₀ s) (va : Nat) (c : UInt8) :
    History progs kcalls k₀
      { s with proc := { s.proc with memory := s.proc.memory.userStore s.proc.ttbr0 va c } }
  | upper {s : Kernel Memory} (h : History progs kcalls k₀ s) (mem : Nat → Nat)
      (hlow : ∀ w < 2 ^ 27, mem w = s.proc.memory.mem w) :
    History progs kcalls k₀ { s with proc := { s.proc with memory := { s.proc.memory with mem } } }
  | device {s : Kernel Memory} (h : History progs kcalls k₀ s) (uart : DevUart) :
    History progs kcalls k₀ { s with uart }
  | call {s : Kernel Memory} (h : History progs kcalls k₀ s) {esr : Nat} {rs rs' : Frame}
      {s' : Kernel Memory} (hspares : SparesKernel esr rs)
      (hcall : kcallDispatch kcalls esr s rs = some (rs', s')) :
    History progs kcalls k₀ s'

/-- A history that ends in `s` and the successful start of program `prog` there. -/
structure FreshStart (progs : KprocProgTab) (kcalls : Kcalls (Kernel Memory)) (k₀ : ProcKernel Memory)
    (prog : Fin kprocProgCount) (s : Kernel Memory) (rs : Frame) (s' : Kernel Memory) (rs' : Frame) :
    Prop where
  history : History progs kcalls k₀ s
  prog : rs.uint32 0 = prog
  call : ∃ esr, callIdOf esr = 1 ∧ kcallDispatch kcalls esr s rs = some (rs', s')
  success : rs' 0 = BitVec.ofInt 64 Kstatus.procOk

/-! ## What calls change -/

section Devices

variable {M : Type} {b : Board} {ops : MemoryOps M} {progs : KprocProgTab} {kdevs : Kdevs (Kernel M)}
  {kcalls : Kcalls (Kernel M)} {s s' : Kernel M}

theorem kcallDispatch_copiesOnly (hdevs : kdevs.Lists (devices b ops))
    (hcalls : kcalls.Lists (calls ops progs kdevs)) {esr : Nat}
    (hio : 2 ≤ callIdOf esr ∧ callIdOf esr < 5) {rs rs' : Frame}
    (h : kcallDispatch kcalls esr s rs = some (rs', s')) : CopiesOnly ops s s' := by
  obtain ⟨call, heq, hcall⟩ := kcallDispatch_of_io (b := b) hcalls hio
  rw [heq] at h
  obtain ⟨⟨r, s₁⟩, hrun, hresult⟩ := Option.map_eq_some_iff.mp h
  obtain ⟨-, rfl⟩ := Prod.mk.inj hresult
  rcases kdevIo_cases ops hdevs _ hrun with rfl | huart
  · exact .of_proc ops rfl
  · exact hcall.copies huart

end Devices

/-! ## The invariant -/

section Spaces

variable {a : MemoryAllocator} {first : Nat} {b : Board} {progs : KprocProgTab}
  {kdevs : Kdevs (Kernel Memory)} {kcalls : Kcalls (Kernel Memory)} {s s' : Kernel Memory}

/-- The invariant of histories: the processes are live and have their spaces. -/
structure Held (a : MemoryAllocator) (s : Kernel Memory) : Prop where
  live : s.proc.Live
  spaces : s.proc.SpacesHeld a

/-- Changes of memory that keep the heap and the tables, with the system registers a
program can set. -/
theorem Held.memory (h : Held a s) (hstack : s'.proc.stack = s.proc.stack)
    (httbr0 : s'.proc.ttbr0 = s.proc.ttbr0) (hheap : s'.proc.memory.heap = s.proc.memory.heap)
    (hmem : ∀ i < s.proc.stack.len, ∀ w, (spaceAt a i).IsTableWord w →
      s'.proc.memory.mem w = s.proc.memory.mem w) : Held a s' := by
  obtain ⟨hcap, hpos, hle, htop⟩ := h.live
  refine ⟨⟨?_, ?_, ?_, ?_⟩, h.spaces.memory hheap hmem hstack rfl⟩
  · rwa [hstack]
  · rwa [hstack]
  · rwa [hstack]
  · rw [httbr0, htop, ProcKernel.tagged, ProcKernel.tagged, hstack]

variable (ha : RoomForSpaces a first)

include ha

/-- Writes to the block of the top process. -/
theorem Held.blockOnly (h : Held a s) (hstack : s'.proc.stack = s.proc.stack)
    (httbr0 : s'.proc.ttbr0 = s.proc.ttbr0)
    (hblock : (spaceAt a (s.proc.stack.len - 1)).BlockOnly s.proc.memory s'.proc.memory) :
    Held a s' := by
  have hpos := h.live.pos
  have hle := h.live.le
  refine h.memory hstack httbr0 hblock.heap fun i hi w hw => hblock.frame w ?_
  exact (ha.isTableWord_apart (by omega) (by omega) hw).2

theorem Held.top (h : Held a s) : (spaceAt a (s.proc.stack.len - 1)).Apart ∧
    s.proc.ttbr0 % 2 ^ 48 = (spaceAt a (s.proc.stack.len - 1)).root ∧
    (spaceAt a (s.proc.stack.len - 1)).InMemory s.proc.memory.mem := by
  have hpos := h.live.pos
  have hle := h.live.le
  exact ⟨ha.apart_spaceAt (by omega), h.spaces.ttbr0 ha h.live, h.spaces.inMemory _ (by omega)⟩

/-- A step of the process machine, as the start and the exit of a process are. -/
theorem Held.machine (h : Held a s) {rs : Frame} {e : ProcEvent} {m : Machine Memory}
    (hstep : Machine.Step Memory.ops progs ⟨s.proc, rs⟩ e m) (uart : DevUart) :
    Held a { proc := m.kernel, uart } :=
  ⟨hstep.live h.live, hstep.spacesHeld ha h.live h.spaces⟩

theorem Held.call (hdevs : kdevs.Lists (devices b Memory.ops))
    (hcalls : kcalls.Lists (calls Memory.ops progs kdevs)) (h : Held a s) {esr : Nat} {rs rs' : Frame}
    (hcall : kcallDispatch kcalls esr s rs = some (rs', s')) : Held a s' := by
  by_cases hsize : callIdOf esr = kcallBufferSize
  · rw [kcallDispatch_of_size hsize] at hcall
    cases hcall
  rcases Nat.lt_or_ge (callIdOf esr) 5 with hlt | hge
  · obtain hid | hid | hio : callIdOf esr = 0 ∨ callIdOf esr = 1 ∨ 2 ≤ callIdOf esr := by omega
    · rw [kcallDispatch_of_bound (hcalls.bound (calls_procExit Memory.ops progs kdevs hid))] at hcall
      obtain ⟨⟨rs₁, proc⟩, hexit, heq⟩ := Option.map_eq_some_iff.mp hcall
      obtain ⟨-, rfl⟩ := Prod.mk.inj heq
      have hstep : Machine.Step Memory.ops progs ⟨s.proc, rs⟩ .exit ⟨proc, rs₁⟩ := .exit hexit
      exact h.machine ha hstep s.uart
    · rw [kcallDispatch_of_bound (hcalls.bound (calls_procStart Memory.ops progs kdevs hid))] at hcall
      obtain ⟨⟨rs₁, proc⟩, hstart, heq⟩ := Option.map_eq_some_iff.mp hcall
      obtain ⟨-, rfl⟩ := Prod.mk.inj heq
      rcases ProcKernel.kcallProcStart_cases hstart with ⟨-, rfl⟩ | hprog
      · exact h
      · have hstep : Machine.Step Memory.ops progs ⟨s.proc, rs⟩ .start ⟨proc, rs₁⟩ := .start hprog hstart
        exact h.machine ha hstep s.uart
    · obtain ⟨va, bytes, hproc⟩ := kcallDispatch_copiesOnly hdevs hcalls ⟨hio, hlt⟩ hcall
      obtain ⟨hapart, httbr0, hin⟩ := h.top ha
      refine h.blockOnly ha (by rw [hproc]) (by rw [hproc]) ?_
      rw [hproc]
      exact hin.bytecpy_blockOnly hapart httbr0 va bytes
  · rw [kcallDispatch_of_unknown hcalls hge hsize] at hcall
    obtain ⟨-, rfl⟩ := Prod.mk.inj (Option.some.inj hcall)
    exact h

theorem History.held (hdevs : kdevs.Lists (devices b Memory.ops))
    (hcalls : kcalls.Lists (calls Memory.ops progs kdevs)) {k₀ : ProcKernel Memory}
    (hcap : k₀.stack.capacity = kprocMaxCount) (hempty : k₀.stack.len = 0) (hheap : k₀.memory.heap = a)
    (h : History progs kcalls k₀ s) : Held a s := by
  have hprog : 0 < kprocProgCount := by decide
  induction h with
  | @boot proc uart hexec =>
    obtain ⟨proc', hrun, hlive, -⟩ := ProcKernel.kprocExec_spec Memory.ops progs hcap hempty hprog
    obtain rfl : proc = proc' := Option.some.inj (hexec.symm.trans hrun)
    exact ⟨hlive, Machine.spacesHeld_of_exec ha hcap hempty hheap hprog hexec⟩
  | @registers s _ spEl0 elrEl1 ih => exact ih.memory rfl rfl rfl fun _ _ _ _ => rfl
  | @store s _ va c ih =>
    obtain ⟨hapart, httbr0, hin⟩ := ih.top ha
    exact ih.blockOnly ha rfl rfl (hin.userStore_blockOnly hapart httbr0 va c)
  | @upper s _ mem hlow ih =>
    refine ih.memory rfl rfl rfl fun i hi w hw => hlow w ?_
    have hle := ih.live.le
    have hroom := ha.room
    rw [ha.isTableWord_iff (by omega)] at hw
    unfold kprocMaxCount at hle hroom
    omega
  | @device s _ uart ih => exact ih.memory rfl rfl rfl fun _ _ _ _ => rfl
  | call _ _ hcall ih => exact ih.call ha hdevs hcalls hcall

end Spaces

/-! ## Starts -/

section Starts

variable {a : MemoryAllocator} {first : Nat} {b : Board} {progs : KprocProgTab}
  {kdevs : Kdevs (Kernel Memory)} {kcalls : Kcalls (Kernel Memory)}
  (hcalls : kcalls.Lists (calls Memory.ops progs kdevs)) {k₀ : ProcKernel Memory}
  {prog : Fin kprocProgCount} {s s' : Kernel Memory} {rs rs' : Frame}

include hcalls

/-- The view of a program when it starts. -/
theorem FreshStart.userView_eq (ha : RoomForSpaces a first) (hs : Held a s)
    (hfits : kprocProgOffset + (progs prog).length ≤ 2 ^ 21)
    (h : FreshStart progs kcalls k₀ prog s rs s' rs') :
    s'.userView rs' = initialView (progs prog) rs s.leftover := by
  obtain ⟨-, hid, ⟨esr, hesr, hcall⟩, hsuccess⟩ := h
  rw [kcallDispatch_of_bound (hcalls.bound (calls_procStart Memory.ops progs kdevs hesr))] at hcall
  obtain ⟨⟨rs₁, proc⟩, hstart, heq⟩ := Option.map_eq_some_iff.mp hcall
  obtain ⟨rfl, rfl⟩ := Prod.mk.inj heq
  have hprog : rs.uint32 0 < kprocProgCount := hid ▸ prog.isLt
  have htext : progs ⟨rs.uint32 0, hprog⟩ = progs prog := congrArg progs (Fin.ext hid)
  have hroom : s.proc.stack.len < kprocMaxCount := by
    by_contra hfull
    have hrun := ProcKernel.kcallProcStart_of_full Memory.ops progs hs.live
      (le_antisymm hs.live.le (Nat.le_of_not_lt hfull)) rs
    obtain ⟨rfl, -⟩ := Prod.mk.inj (Option.some.inj (hstart.symm.trans hrun))
    rw [Frame.setStatus, Function.update_self] at hsuccess
    exact absurd hsuccess (by decide)
  obtain ⟨proc', hrun, hstarted⟩ :=
    ProcKernel.kcallProcStart_of_room Memory.ops progs hs.live hroom hprog
  obtain ⟨rfl, rfl⟩ := Prod.mk.inj (Option.some.inj (hstart.symm.trans hrun))
  obtain ⟨hheld, hsp, helr, hbytes⟩ := hs.spaces.start ha hs.live hroom hprog hstart
  have httbr0 := hheld.ttbr0 ha hstarted.live
  have hin := hheld.inMemory s.proc.stack.len (by rw [hstarted.len]; exact Nat.lt_succ_self _)
  rw [hstarted.len, Nat.add_sub_cancel] at httbr0
  rw [htext] at hbytes
  refine UserView.ext (funext fun i => ?_) hsp helr (funext fun va => ?_)
  · simp only [userView, initialView]
    by_cases hi : i = 0
    · rw [if_pos hi, hi]
      exact hsuccess
    · rw [if_neg hi, Frame.setStatus_castSucc _ _ hi]
  · simp only [userView, initialView]
    rw [hin.userLoad_eq (ha.apart_spaceAt hroom) httbr0]
    by_cases hva : va < 2 ^ 21
    · rw [if_pos hva, if_pos hva, hbytes (by omega) va hva, ha.block_eq hroom]
      rfl
    · rw [if_neg hva, if_neg hva]

/-- With room on the stack, a start succeeds. -/
theorem History.freshStart (hs : Held a s)
    (h : History progs kcalls k₀ s) (hroom : s.proc.stack.len < kprocMaxCount)
    (hid : rs.uint32 0 = prog) :
    ∃ s', FreshStart progs kcalls k₀ prog s rs s' (rs.setStatus Kstatus.procOk) ∧
      History progs kcalls k₀ s' ∧ s'.proc.stack.len = s.proc.stack.len + 1 := by
  have hprog : rs.uint32 0 < kprocProgCount := hid ▸ prog.isLt
  have hesr : callIdOf 0x56000001 = 1 := by decide
  obtain ⟨proc, hrun, hstarted⟩ :=
    ProcKernel.kcallProcStart_of_room Memory.ops progs hs.live hroom hprog
  have hcall : kcallDispatch kcalls 0x56000001 s rs =
      some (rs.setStatus Kstatus.procOk, { s with proc }) := by
    rw [kcallDispatch_of_bound (hcalls.bound (calls_procStart Memory.ops progs kdevs hesr)),
      kcallProcStart, hrun]
    rfl
  refine ⟨{ s with proc }, ⟨h, hid, ⟨_, hesr, hcall⟩, Function.update_self ..⟩, ?_, hstarted.len⟩
  exact h.call (fun hread => by rw [hesr] at hread; cases hread) hcall

/-- The top process exits, and the next one in its place gets its block as it left it. -/
theorem History.exit (ha : RoomForSpaces a first) (hs : Held a s) (h : History progs kcalls k₀ s)
    (hdeep : 2 ≤ s.proc.stack.len) : ∃ s', History progs kcalls k₀ s' ∧
      s'.proc.stack.len + 1 = s.proc.stack.len ∧
      ∀ va < 2 ^ 21, s'.leftover va =
        byteAt s.proc.memory.mem ((spaceAt a (s.proc.stack.len - 1)).block + va) := by
  have hesr : callIdOf 0x56000000 = 0 := by decide
  obtain ⟨rs', proc, hrun, hexited⟩ :=
    ProcKernel.kcallProcExit_of_deep Memory.ops hs.live hdeep (fun _ => 0)
  have hcall : kcallDispatch kcalls 0x56000000 s (fun _ => 0) = some (rs', { s with proc }) := by
    rw [kcallDispatch_of_bound (hcalls.bound (calls_procExit Memory.ops progs kdevs hesr)),
      kcallProcExit, hrun]
    rfl
  have hlen := hexited.len
  have hmax : s.proc.stack.len - 1 < kprocMaxCount := by
    have := hs.live.le
    omega
  refine ⟨{ s with proc }, h.call (fun hread => by rw [hesr] at hread; cases hread) hcall, hlen,
    fun va hva => ?_⟩
  have hplace : (proc.stack.len + 1) * 2 ^ 21 + va = (spaceAt a (s.proc.stack.len - 1)).block + va := by
    rw [ha.block_eq hmax, hlen, Nat.sub_add_cancel (by omega)]
  have hframe := (hs.spaces.exit ha hs.live hdeep hrun).2
  rw [leftover, hplace]
  refine byteAt_congr (hframe _ fun hroot => ?_)
  exact (ha.isTableWord_apart hmax hmax (.inl hroot)).2 _ (Nat.le_add_right _ _) (by omega) rfl

/-- A child can leave any byte behind for the next one. -/
theorem History.leave (ha : RoomForSpaces a first) (hinv : ∀ s, History progs kcalls k₀ s → Held a s)
    (h : History progs kcalls k₀ s) (hroom : s.proc.stack.len < kprocMaxCount)
    (hid : rs.uint32 0 = prog) {va : Nat} (hva : va < 2 ^ 21) (c : UInt8) :
    ∃ s', History progs kcalls k₀ s' ∧ s'.proc.stack.len = s.proc.stack.len ∧ s'.leftover va = c := by
  obtain ⟨s₁, -, h₁, hlen₁⟩ := History.freshStart hcalls (hinv s h) h hroom hid
  obtain ⟨hapart, httbr0, hin⟩ := (hinv s₁ h₁).top ha
  have h₂ := h₁.store va c
  have hdeep : 2 ≤ s₁.proc.stack.len := by
    have := (hinv s h).live.pos
    omega
  obtain ⟨s₃, h₃, hlen₃, hleft⟩ := History.exit hcalls ha (hinv _ h₂) h₂ hdeep
  refine ⟨s₃, h₃, by simp only at hlen₃; omega, ?_⟩
  rw [hleft va hva]
  exact (hin.byteAt_userStore hapart httbr0 hva c).trans (if_pos rfl)

/-- Every register but `x0` shows what the parent had in it. -/
theorem History.shows_register (hs : Held a s) (h : History progs kcalls k₀ s)
    (hroom : s.proc.stack.len < kprocMaxCount) (hid : rs.uint32 0 = prog) {i : Fin 31} (hi : i ≠ 0) :
    ∃ s₁' rs₁' rs₂ s₂' rs₂', FreshStart progs kcalls k₀ prog s rs s₁' rs₁' ∧
      FreshStart progs kcalls k₀ prog s rs₂ s₂' rs₂' ∧
      (s₁'.userView rs₁').generalRegs i ≠ (s₂'.userView rs₂').generalRegs i := by
  have hslot : (0 : Fin 32) ≠ i.castSucc := fun hzero => hi (Fin.castSucc_injective 31 hzero.symm)
  have : Nontrivial (BitVec 64) := ⟨0, 1, by decide⟩
  obtain ⟨x, hx⟩ := exists_ne (rs i.castSucc)
  have hid' : Frame.uint32 (Function.update rs i.castSucc x) 0 = prog := by
    rw [Frame.uint32, Function.update_of_ne hslot]
    exact hid
  obtain ⟨s₁', h₁, -⟩ := History.freshStart hcalls hs h hroom hid
  obtain ⟨s₂', h₂, -⟩ := History.freshStart hcalls hs h hroom hid'
  refine ⟨s₁', _, _, s₂', _, h₁, h₂, ?_⟩
  simp only [userView]
  rw [Frame.setStatus_castSucc _ _ hi, Frame.setStatus_castSucc _ _ hi, Function.update_self]
  exact hx.symm

/-- Every byte outside the text shows what an earlier child has left there. -/
theorem History.shows_leftover (ha : RoomForSpaces a first)
    (hinv : ∀ s, History progs kcalls k₀ s → Held a s) (h : History progs kcalls k₀ s)
    (hroom : s.proc.stack.len < kprocMaxCount) (hid : rs.uint32 0 = prog)
    (hfits : kprocProgOffset + (progs prog).length ≤ 2 ^ 21) {va : Nat} (hva : va < 2 ^ 21)
    (hout : ¬InText (progs prog) va) :
    ∃ s₁' rs₁' s₂ s₂' rs₂', FreshStart progs kcalls k₀ prog s rs s₁' rs₁' ∧
      FreshStart progs kcalls k₀ prog s₂ rs s₂' rs₂' ∧ s₂.proc.stack.len = s.proc.stack.len ∧
      (s₁'.userView rs₁').region va ≠ (s₂'.userView rs₂').region va := by
  have hregion : ∀ {s s' rs'}, FreshStart progs kcalls k₀ prog s rs s' rs' →
      (s'.userView rs').region va = some (s.leftover va) := fun hfresh => by
    rw [hfresh.userView_eq hcalls ha (hinv _ hfresh.history) hfits, initialView_region hva hout]
  have : Nontrivial UInt8 := ⟨0, 1, by decide⟩
  obtain ⟨c, hc⟩ := exists_ne (s.leftover va)
  obtain ⟨s₂, hleave, hlen, hbyte⟩ := History.leave hcalls ha hinv h hroom hid hva c
  obtain ⟨s₁', h₁, -⟩ := History.freshStart hcalls (hinv s h) h hroom hid
  obtain ⟨s₂', h₂, -⟩ := History.freshStart hcalls (hinv s₂ hleave) hleave (hlen ▸ hroom) hid
  refine ⟨s₁', _, s₂, s₂', _, h₁, h₂, hlen, ?_⟩
  rw [hregion h₁, hregion h₂, hbyte]
  exact fun heq => hc (Option.some.inj heq).symm

end Starts

/-! ## Two starts -/

/-- What two views of programs with the same text share. -/
structure StartsAlike (text : List UInt8) (v₁ v₂ : UserView) : Prop where
  status : v₁.generalRegs 0 = v₂.generalRegs 0
  sp : v₁.sp = v₂.sp
  elr : v₁.elr = v₂.elr
  extent : ∀ va, (v₁.region va).isSome = (v₂.region va).isSome
  text : ∀ va, InText text va → v₁.region va = v₂.region va

theorem startsAlike_initialView (text : List UInt8) (rs₁ rs₂ : Frame) (left₁ left₂ : Nat → UInt8) :
    StartsAlike text (initialView text rs₁ left₁) (initialView text rs₂ left₂) where
  status := rfl
  sp := rfl
  elr := rfl
  extent va := by
    simp only [initialView]
    split <;> rfl
  text va hin := by
    by_cases hva : va < 2 ^ 21
    · rw [initialView_region_of_inText hva hin, initialView_region_of_inText hva hin]
    · simp only [initialView, if_neg hva]

/-- What a fresh start shows, whatever the history: the program starts at its offset with
status `OK`, with its text, with the other registers of its parent and with what its
block held. Two starts of a program show the same just when the last two agree. -/
structure StartsWithLeftovers (progs : KprocProgTab) (kcalls : Kcalls (Kernel Memory))
    (k₀ : ProcKernel Memory) : Prop where
  view : ∀ {prog s rs s' rs'}, FreshStart progs kcalls k₀ prog s rs s' rs' →
    s'.userView rs' = initialView (progs prog) rs s.leftover
  alike : ∀ {prog s₁ rs₁ s₁' rs₁' s₂ rs₂ s₂' rs₂'}, FreshStart progs kcalls k₀ prog s₁ rs₁ s₁' rs₁' →
    FreshStart progs kcalls k₀ prog s₂ rs₂ s₂' rs₂' →
    StartsAlike (progs prog) (s₁'.userView rs₁') (s₂'.userView rs₂')
  eq_iff : ∀ {prog s₁ rs₁ s₁' rs₁' s₂ rs₂ s₂' rs₂'}, FreshStart progs kcalls k₀ prog s₁ rs₁ s₁' rs₁' →
    FreshStart progs kcalls k₀ prog s₂ rs₂ s₂' rs₂' →
    (s₁'.userView rs₁' = s₂'.userView rs₂' ↔
      (∀ i : Fin 31, i ≠ 0 → rs₁ i.castSucc = rs₂ i.castSucc) ∧
        ∀ va < 2 ^ 21, ¬InText (progs prog) va → s₁.leftover va = s₂.leftover va)

/-- A freshly started program sees its parent's registers and what its block held, and
nothing else of the history. -/
theorem startsWithLeftovers (b : Board) (progs : KprocProgTab)
    (hfits : ∀ prog, kprocProgOffset + (progs prog).length ≤ 2 ^ 21) (memory : Nat → BitVec 64)
    (mem : Nat → Nat) {image : Nat} (hpage : image % 4096 = 0) (hlow : 0x80000 < image)
    (hhigh : image ≤ 0x100000) {k₀ : ProcKernel Memory} (hcap : k₀.stack.capacity = kprocMaxCount)
    (hempty : k₀.stack.len = 0) (hmemory : k₀.memory = bootMemory memory mem image) :
    ∃ kdevs kcalls, setupDevices b Memory.ops = some (2, kdevs) ∧
      setupSyscalls Memory.ops progs kdevs = some (4, kcalls) ∧
      StartsWithLeftovers progs kcalls k₀ := by
  obtain ⟨first, ha, -⟩ := bootMemory_room memory mem hpage hlow hhigh
  obtain ⟨kdevs, hsetup, hdevs⟩ := setupDevices_lists b Memory.ops
  obtain ⟨kcalls, hsetup', hcalls⟩ := setupSyscalls_lists Memory.ops progs kdevs
  have hview : ∀ {prog s rs s' rs'}, FreshStart progs kcalls k₀ prog s rs s' rs' →
      s'.userView rs' = initialView (progs prog) rs s.leftover := fun h =>
    h.userView_eq hcalls ha (h.history.held ha hdevs hcalls hcap hempty (by rw [hmemory])) (hfits _)
  refine ⟨kdevs, kcalls, hsetup, hsetup', hview, fun h₁ h₂ => ?_, fun h₁ h₂ => ?_⟩
  · rw [hview h₁, hview h₂]
    exact startsAlike_initialView ..
  · rw [hview h₁, hview h₂]
    exact initialView_eq_iff

theorem startsWithLeftovers_bootedKernel : ∃ kdevs kcalls,
    setupDevices UartSession.slowBoard Memory.ops = some (2, kdevs) ∧
      setupSyscalls Memory.ops Machine.noText kdevs = some (4, kcalls) ∧
      StartsWithLeftovers Machine.noText kcalls Machine.bootedKernel :=
  startsWithLeftovers UartSession.slowBoard Machine.noText
    (fun _ => show kprocProgOffset ≤ 2 ^ 21 by decide) (fun _ => 0#64) (fun _ => 0)
    (by decide) (by decide) (by decide) rfl rfl Machine.bootedKernel_memory

/-- The program that `kernel_main` executes. -/
def firstProg : Fin kprocProgCount := ⟨0, by decide⟩

/-- From the same kernel, another `x1` of the parent shows in that of the child. With the
same registers and as many processes, so does a byte that an earlier child has left. -/
theorem not_fresh_bootedKernel : ∃ kdevs kcalls,
    setupDevices UartSession.slowBoard Memory.ops = some (2, kdevs) ∧
      setupSyscalls Memory.ops Machine.noText kdevs = some (4, kcalls) ∧
      ∃ s rs, (∃ s₁' rs₁' rs₂ s₂' rs₂',
        FreshStart Machine.noText kcalls Machine.bootedKernel firstProg s rs s₁' rs₁' ∧
        FreshStart Machine.noText kcalls Machine.bootedKernel firstProg s rs₂ s₂' rs₂' ∧
        (s₁'.userView rs₁').generalRegs 1 ≠ (s₂'.userView rs₂').generalRegs 1) ∧
      ∃ s₁' rs₁' s₂ s₂' rs₂',
        FreshStart Machine.noText kcalls Machine.bootedKernel firstProg s rs s₁' rs₁' ∧
        FreshStart Machine.noText kcalls Machine.bootedKernel firstProg s₂ rs s₂' rs₂' ∧
        s₂.proc.stack.len = s.proc.stack.len ∧
        (s₁'.userView rs₁').region 0 ≠ (s₂'.userView rs₂').region 0 := by
  obtain ⟨first, ha, -⟩ := bootMemory_room (fun _ => 0#64) (fun _ => 0)
    (show 0x100000 % 4096 = 0 by decide) (by decide) (by decide)
  obtain ⟨kdevs, hsetup, hdevs⟩ := setupDevices_lists UartSession.slowBoard Memory.ops
  obtain ⟨kcalls, hsetup', hcalls⟩ := setupSyscalls_lists Memory.ops Machine.noText kdevs
  have hinv : ∀ s, History Machine.noText kcalls Machine.bootedKernel s → Held _ s := fun s h =>
    h.held ha hdevs hcalls rfl rfl (by rw [Machine.bootedKernel_memory])
  obtain ⟨proc, hexec, -, hone⟩ := ProcKernel.kprocExec_spec Memory.ops Machine.noText
    (k := Machine.bootedKernel) rfl rfl (show 0 < kprocProgCount by decide)
  have hboot : History Machine.noText kcalls Machine.bootedKernel
      { proc, uart := DevUart.init UartSession.idleUart (fun _ => 0) (fun _ => 0) } := .boot _ hexec
  have hroom : proc.stack.len < kprocMaxCount := by
    rw [hone]
    decide
  have hfits : kprocProgOffset + (Machine.noText firstProg).length ≤ 2 ^ 21 := by decide
  have hout : ¬InText (Machine.noText firstProg) 0 := fun hin => absurd hin.1 (by decide)
  exact ⟨kdevs, kcalls, hsetup, hsetup', _, fun _ => 0,
    History.shows_register hcalls (hinv _ hboot) hboot hroom rfl (by decide),
    History.shows_leftover hcalls ha hinv hboot hroom rfl hfits (by decide) hout⟩

end Kernel

end PiVOS
