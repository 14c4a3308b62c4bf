-- SUMMARY: What programs can do to one another's memory, over all runs of stores and calls.
import PiVOS.ProcHalves

/-!
# Isolation

Over every run in which no read call is pointed at the kernel's first gigabyte, the memory
of the kernel is out of the reach of programs, that of suspended programs stays as it is, and
a program finds everything again as it left it when its child exits. A read call that is
pointed there stores what the UART has received, anywhere below that gigabyte.
-/

namespace PiVOS

/-! ## The machine -/

/-- The kernel and the general registers of the running program. -/
structure UserMachine where
  kernel : Kernel Memory
  rs : Frame

inductive UserEvent
  | registers (rs : Frame) (spEl0 elrEl1 : BitVec 64)
  | store (va : Nat) (c : UInt8)
  | device (uart : DevUart)
  | call (esr : Nat)

/-- The same program after a call that returned `status`. -/
def UserView.withStatus (v : UserView) (status : Int) : UserView :=
  { v with generalRegs := fun i => if i.val = 0 then BitVec.ofInt 64 status else v.generalRegs i }

namespace UserMachine

/-- A program sets its registers, stores to any address of either half or makes a kernel
call, with any number; the UART is as it likes. Read calls spare the kernel's first gigabyte. -/
inductive Step (kcalls : Kcalls (Kernel Memory)) (ttbr1 : Nat) :
    UserMachine → UserEvent → UserMachine → Prop
  | registers (m : UserMachine) (rs : Frame) (spEl0 elrEl1 : BitVec 64) :
    Step kcalls ttbr1 m (.registers rs spEl0 elrEl1)
      { kernel := { m.kernel with proc := { m.kernel.proc with spEl0, elrEl1 } }, rs }
  | store (m : UserMachine) (va : Nat) (c : UInt8) :
    Step kcalls ttbr1 m (.store va c)
      { m with kernel := { m.kernel with proc := { m.kernel.proc with
          memory := m.kernel.proc.memory.el0Store m.kernel.proc.ttbr0 ttbr1 va c } } }
  | device (m : UserMachine) (uart : DevUart) :
    Step kcalls ttbr1 m (.device uart) { m with kernel := { m.kernel with uart } }
  | call {m : UserMachine} {esr : Nat} {rs : Frame} {kernel : Kernel Memory}
      (hspares : Kernel.SparesKernel esr m.rs)
      (hcall : kcallDispatch kcalls esr m.kernel m.rs = some (rs, kernel)) :
    Step kcalls ttbr1 m (.call esr) { kernel, rs }

/-- The memory of the processes. -/
def memory (m : UserMachine) : Memory := m.kernel.proc.memory

/-- The number of processes. -/
def count (m : UserMachine) : Nat := m.kernel.proc.stack.len

/-- The invariant of runs: the processes have their spaces, and the pages of the kernel are
as they were. -/
structure Isolated (a : MemoryAllocator) (first : Nat) (boot : Nat → Nat) (m : UserMachine) : Prop where
  held : Kernel.Held a m.kernel
  kernel : SameBelow first boot m.memory.mem

/-- What a step can be: one that stays with the running program and changes only what is
its own, a start, or an exit. -/
inductive Outcome (a : MemoryAllocator) (m m' : UserMachine) (e : UserEvent) : Prop
  | own (hstack : m'.kernel.proc.stack = m.kernel.proc.stack)
      (httbr0 : m'.kernel.proc.ttbr0 = m.kernel.proc.ttbr0)
      (hown : (spaceAt a (m.count - 1)).OwnOnly m.memory m'.memory)
  | started (esr : Nat) (he : e = .call esr) (hid : callIdOf esr = 1)
      (hstarted : m.kernel.proc.Started m.rs m'.kernel.proc) (hheld : m'.kernel.proc.SpacesHeld a)
      (hframe : ∀ w, ¬(spaceAt a m.count).IsTableWord w →
        (∀ pa, (spaceAt a m.count).block ≤ pa → pa < (spaceAt a m.count).block + 2 ^ 21 → w ≠ pa / 8) →
        m'.memory.mem w = m.memory.mem w)
  | exited (esr : Nat) (he : e = .call esr) (hid : callIdOf esr = 0)
      (hexited : m.kernel.proc.Exited m'.kernel.proc m'.rs) (hheld : m'.kernel.proc.SpacesHeld a)
      (hframe : ∀ w, ¬InTable (spaceAt a (m.count - 1)).root w → m'.memory.mem w = m.memory.mem w)

section Steps

variable {a : MemoryAllocator} {first : Nat} {boot : Nat → Nat} {ttbr1 : Nat} {b : Board}
  {progs : KprocProgTab} {kdevs : Kdevs (Kernel Memory)} {kcalls : Kcalls (Kernel Memory)}
  {m m' : UserMachine} {e : UserEvent}
  (ha : RoomForSpaces a first) (hhalf : HalfBelow first boot ttbr1)
  (hfits : ∀ prog, kprocProgOffset + (progs prog).length ≤ 2 ^ 48)
  (hdevs : kdevs.Lists (Kernel.devices b (Memory.kernelOps ttbr1)))
  (hcalls : kcalls.Lists (Kernel.calls (Memory.kernelOps ttbr1) progs kdevs))

theorem Outcome.of_proc (h : m'.kernel.proc = m.kernel.proc) : Outcome a m m' e := by
  refine .own (by rw [h]) (by rw [h]) ?_
  rw [memory, memory, h]
  exact .refl _ _

theorem Isolated.top (ha : RoomForSpaces a first) (h : Isolated a first boot m) :
    m.count - 1 < kprocMaxCount ∧ (spaceAt a (m.count - 1)).InMemory m.memory.mem ∧
      m.kernel.proc.ttbr0 % 2 ^ 48 = (spaceAt a (m.count - 1)).root := by
  obtain ⟨-, httbr0, hin⟩ := h.held.top ha
  have hle := h.held.live.le
  exact ⟨by unfold count kprocMaxCount at *; omega, hin, httbr0⟩

include ha

theorem Outcome.isolated (h : Isolated a first boot m) (hout : Outcome a m m' e) :
    Isolated a first boot m' := by
  have hle := h.held.live.le
  have hpos := h.held.live.pos
  have hroom := ha.room
  obtain ⟨hmax, -, -⟩ := h.top ha
  rcases hout with ⟨hstack, httbr0, hown⟩ | ⟨esr, -, -, hstarted, hheld, hframe⟩ |
    ⟨esr, -, -, hexited, hheld, hframe⟩
  · refine ⟨h.held.memory hstack httbr0 hown.heap fun i hi w hw => ?_, hown.sameBelow ha hmax h.kernel⟩
    exact hown.tables ha hmax (Nat.lt_of_lt_of_le hi hle) hw
  · have hcount : m.count < kprocMaxCount := by
      have hle' := hstarted.live.le
      rw [hstarted.len] at hle'
      exact hle'
    refine ⟨⟨hstarted.live, hheld⟩, fun w hw => (hframe w ?_ fun pa hlo _ => ?_).trans (h.kernel w hw)⟩
    · rw [ha.isTableWord_iff hcount]
      omega
    · rw [ha.block_eq hcount] at hlo
      unfold kprocMaxCount at hroom
      omega
  · refine ⟨⟨hexited.live, hheld⟩, fun w hw => (hframe w fun hroot => ?_).trans (h.kernel w hw)⟩
    have hword := (ha.isTableWord_iff hmax w).mp (.inl hroot)
    omega

include hhalf hfits hdevs hcalls

theorem Step.outcome (h : Isolated a first boot m) (hstep : Step kcalls ttbr1 m e m') :
    Outcome a m m' e := by
  obtain ⟨hmax, hin, httbr0⟩ := h.top ha
  have hapart := ha.apart_spaceAt hmax
  cases hstep with
  | registers rs spEl0 elrEl1 => exact .own rfl rfl (.refl _ _)
  | store va c =>
    exact .own rfl rfl (hin.el0Store_ownOnly hapart (ha.inReach_spaceAt hmax) httbr0 (hhalf _ h.kernel) va c)
  | device uart => exact .of_proc rfl
  | @call esr rs kernel hspares hcall =>
    by_cases hsize : callIdOf esr = kcallBufferSize
    · rw [kcallDispatch_of_size hsize] at hcall
      cases hcall
    rcases Nat.lt_or_ge (callIdOf esr) 5 with hlt | hge
    · obtain hid | hid | hio : callIdOf esr = 0 ∨ callIdOf esr = 1 ∨ 2 ≤ callIdOf esr := by omega
      · rw [kcallDispatch_of_bound (hcalls.bound (Kernel.calls_procExit _ progs kdevs hid))] at hcall
        obtain ⟨⟨rs₁, proc⟩, hexit, heq⟩ := Option.map_eq_some_iff.mp hcall
        obtain ⟨rfl, rfl⟩ := Prod.mk.inj heq
        rw [ProcKernel.kcallProcExit_kernelOps] at hexit
        rcases Nat.lt_or_ge m.count 2 with hone | hdeep
        · have hrun := ProcKernel.kcallProcExit_of_last Memory.ops
            (le_antisymm (Nat.le_of_lt_succ hone) h.held.live.pos) m.rs
          obtain ⟨-, rfl⟩ := Prod.mk.inj (Option.some.inj (hexit.symm.trans hrun))
          exact .of_proc rfl
        · obtain ⟨rs', k', hrun, hexited⟩ :=
            ProcKernel.kcallProcExit_of_deep Memory.ops h.held.live hdeep m.rs
          obtain ⟨rfl, rfl⟩ := Prod.mk.inj (Option.some.inj (hexit.symm.trans hrun))
          obtain ⟨hheld, hframe⟩ := h.held.spaces.exit ha h.held.live hdeep hexit
          exact .exited esr rfl hid hexited hheld hframe
      · rw [kcallDispatch_of_bound (hcalls.bound (Kernel.calls_procStart _ progs kdevs hid))] at hcall
        obtain ⟨⟨rs₁, proc⟩, hstart, heq⟩ := Option.map_eq_some_iff.mp hcall
        obtain ⟨rfl, rfl⟩ := Prod.mk.inj heq
        rcases ProcKernel.kcallProcStart_cases hstart with ⟨-, rfl⟩ | hprog
        · exact .of_proc rfl
        rcases Nat.lt_or_ge m.count kprocMaxCount with hroom | hfull
        · obtain ⟨k', hrun, hstarted⟩ := ProcKernel.kcallProcStart_of_room (Memory.kernelOps ttbr1) progs
            h.held.live hroom hprog
          obtain ⟨rfl, rfl⟩ := Prod.mk.inj (Option.some.inj (hstart.symm.trans hrun))
          obtain ⟨hheld, hframe⟩ := h.held.spaces.start_kernelOps ha h.held.live hroom hprog
            (hfits _) hstart
          exact .started esr rfl hid hstarted hheld hframe
        · have hrun := ProcKernel.kcallProcStart_of_full (Memory.kernelOps ttbr1) progs h.held.live
            (le_antisymm h.held.live.le hfull) m.rs
          obtain ⟨-, rfl⟩ := Prod.mk.inj (Option.some.inj (hstart.symm.trans hrun))
          exact .of_proc rfl
      · rcases Kernel.kcallDispatch_copies hdevs hcalls ⟨hio, hlt⟩ hcall with
          hproc | ⟨hid, bytes, hbytes, hproc⟩
        · exact .of_proc hproc
        · refine .own (by rw [hproc]) (by rw [hproc]) ?_
          rw [memory, memory, hproc]
          exact hin.bytecpy_ownOnly ha hmax hhalf httbr0 h.kernel (m.rs 1).isLt fun k hk pa hpa =>
            hspares hid k (Nat.lt_of_lt_of_le hk hbytes) pa hpa
    · rw [Kernel.kcallDispatch_of_unknown hcalls hge hsize] at hcall
      obtain ⟨-, rfl⟩ := Prod.mk.inj (Option.some.inj hcall)
      exact .of_proc rfl

end Steps

/-! ## Suspended programs -/

/-- The bytes of the block of process `d`, at the addresses where the process sees them. -/
def region (a : MemoryAllocator) (m : UserMachine) (d va : Nat) : Option UInt8 :=
  if va < 2 ^ 21 then some (byteAt m.memory.mem ((spaceAt a d).block + va)) else none

/-- What is kept of a suspended program: its registers and its block. -/
@[ext] structure Kept where
  suspend : SuspendState
  region : Nat → Option UInt8

def running (a : MemoryAllocator) (m : UserMachine) : Kept where
  suspend := ⟨m.kernel.proc.spEl0, m.kernel.proc.elrEl1, m.rs⟩
  region := m.region a (m.count - 1)

def kept (a : MemoryAllocator) (m : UserMachine) (d : Nat) : Kept where
  suspend := (m.kernel.proc.stack.buffer d).suspend
  region := m.region a d

/-- The number of suspended programs. -/
def depth (m : UserMachine) : Nat := m.count - 1

section Suspended

variable {a : MemoryAllocator} {first : Nat} {boot : Nat → Nat} {m m' : UserMachine} {e : UserEvent}

theorem region_congr {d : Nat} (h : ∀ va < 2 ^ 21,
    byteAt m'.memory.mem ((spaceAt a d).block + va) = byteAt m.memory.mem ((spaceAt a d).block + va)) :
    m'.region a d = m.region a d := by
  funext va
  by_cases hva : va < 2 ^ 21
  · rw [region, region, if_pos hva, if_pos hva, h va hva]
  · rw [region, region, if_neg hva, if_neg hva]

variable (ha : RoomForSpaces a first)

include ha

/-- No step changes the block of a program that is suspended before or after it. -/
theorem Outcome.region_eq (h : Isolated a first boot m) (hout : Outcome a m m' e) {d : Nat}
    (hd : d < depth m ∨ d < depth m') : m'.region a d = m.region a d := by
  obtain ⟨hmax, -, -⟩ := h.top ha
  have hpos := h.held.live.pos
  unfold depth count at hd
  refine region_congr fun va hva => ?_
  rcases hout with ⟨hstack, -, hown⟩ | ⟨esr, -, -, hstarted, -, hframe⟩ | ⟨esr, -, -, hexited, -, hframe⟩
  · rw [hstack, or_self] at hd
    exact hown.byteAt_block ha hmax (hd.trans hmax) (Nat.ne_of_gt hd) hva
  · have hcount : m.count < kprocMaxCount := by
      have hle := hstarted.live.le
      rw [hstarted.len] at hle
      exact hle
    rw [hstarted.len] at hd
    have hbelow : d < m.count := by
      unfold count
      omega
    have hdmax : d < kprocMaxCount := hbelow.trans hcount
    refine byteAt_congr (hframe _ (fun hw => ?_) fun pa hlo hhi => ?_)
    · exact (ha.isTableWord_apart hcount hdmax hw).2 _ (Nat.le_add_right _ _) (by omega) rfl
    · rw [ha.block_eq hcount] at hlo hhi
      rw [ha.block_eq hdmax]
      omega
  · have hlen := hexited.len
    have hdmax : d < kprocMaxCount := lt_of_le_of_lt (by unfold count; omega) hmax
    refine byteAt_congr (hframe _ fun hroot => ?_)
    exact (ha.isTableWord_apart hmax hdmax (.inl hroot)).2 _ (Nat.le_add_right _ _) (by omega) rfl

/-- A step goes one program deeper, and then keeps what the parent was, or does not; of the
programs that are still suspended, it keeps everything. -/
theorem Outcome.kept_cases (h : Isolated a first boot m) (hout : Outcome a m m' e) :
    (depth m' = depth m + 1 ∧ m'.kept a (depth m) = m.running a ∧
      ∀ d < depth m, m'.kept a d = m.kept a d) ∨
    (depth m' ≤ depth m ∧ ∀ d < depth m', m'.kept a d = m.kept a d) := by
  have hpos := h.held.live.pos
  have hregion := fun d => hout.region_eq ha h (d := d)
  rcases hout with ⟨hstack, -, -⟩ | ⟨esr, -, -, hstarted, -, -⟩ | ⟨esr, -, -, hexited, -, -⟩
  · refine .inr ⟨by rw [depth, depth, count, count, hstack], fun d hd => ?_⟩
    rw [kept, kept, hstack, hregion d (.inr hd)]
  · have hdepth : depth m' = depth m + 1 := by
      rw [depth, depth, count, count, hstarted.len]
      omega
    refine .inl ⟨hdepth, ?_, fun d hd => ?_⟩
    · rw [kept, running, hregion _ (.inr (hdepth ▸ Nat.lt_succ_self _)), depth, count, hstarted.saved]
    · rw [kept, kept, hregion d (.inl hd), hstarted.keeps d hd]
  · have hlen := hexited.len
    refine .inr ⟨by unfold depth count; omega, fun d hd => ?_⟩
    rw [kept, kept, hregion d (.inr hd), hexited.keeps]

end Suspended

/-! ## Runs -/

/-- What the running program can tell. -/
def view (m : UserMachine) : UserView := m.kernel.userView m.rs

/-- `m₁` made the start that matches an exit from `m`: its child is the running program of
`m`, and the parent has been suspended ever since. -/
def MatchingStart (kcalls : Kcalls (Kernel Memory)) (ttbr1 : Nat) (m₀ : UserMachine)
    (es : List UserEvent) (m m₁ : UserMachine) : Prop :=
  ∃ before after esr m₂, es = before ++ .call esr :: after ∧ callIdOf esr = 1 ∧
    Exec (Step kcalls ttbr1) m₀ before m₁ ∧ Step kcalls ttbr1 m₁ (.call esr) m₂ ∧
    m₂.count = m₁.count + 1 ∧ m.count = m₁.count + 1 ∧
    ExecBelow (Step kcalls ttbr1) depth (depth m₁) m₂ after m

section Runs

variable {a : MemoryAllocator} {first : Nat} {boot : Nat → Nat} {ttbr1 : Nat} {b : Board}
  {progs : KprocProgTab} {kdevs : Kdevs (Kernel Memory)} {kcalls : Kcalls (Kernel Memory)}
  {m m' m₀ : UserMachine} {es : List UserEvent}
  (ha : RoomForSpaces a first) (hhalf : HalfBelow first boot ttbr1)
  (hfits : ∀ prog, kprocProgOffset + (progs prog).length ≤ 2 ^ 48)
  (hdevs : kdevs.Lists (Kernel.devices b (Memory.kernelOps ttbr1)))
  (hcalls : kcalls.Lists (Kernel.calls (Memory.kernelOps ttbr1) progs kdevs))

theorem view_eq (ha : RoomForSpaces a first) (h : Isolated a first boot m) : m.view =
    { generalRegs := fun i => m.rs i.castSucc
      sp := m.kernel.proc.spEl0
      elr := m.kernel.proc.elrEl1
      region := m.region a (m.count - 1) } := by
  obtain ⟨hmax, hin, httbr0⟩ := h.top ha
  exact UserView.ext rfl rfl rfl (funext fun va => hin.userLoad_eq (ha.apart_spaceAt hmax) httbr0 va)

/-- The programs as a record of suspended programs with their blocks. -/
def nesting (ha : RoomForSpaces a first) (hhalf : HalfBelow first boot ttbr1)
    (hfits : ∀ prog, kprocProgOffset + (progs prog).length ≤ 2 ^ 48)
    (hdevs : kdevs.Lists (Kernel.devices b (Memory.kernelOps ttbr1)))
    (hcalls : kcalls.Lists (Kernel.calls (Memory.kernelOps ttbr1) progs kdevs)) :
    Nesting (Step kcalls ttbr1) where
  Snapshot := Kept
  depth := depth
  snapshot := running a
  saved := kept a
  Inv := Isolated a first boot
  inv_step _ _ _ h hstep := (hstep.outcome ha hhalf hfits hdevs hcalls h).isolated ha h
  cases h hstep := (hstep.outcome ha hhalf hfits hdevs hcalls h).kept_cases ha h

include ha hhalf hfits hdevs hcalls

theorem Isolated.run (h₀ : Isolated a first boot m₀) (hrun : Exec (Step kcalls ttbr1) m₀ es m) :
    Isolated a first boot m :=
  hrun.invariant (nesting ha hhalf hfits hdevs hcalls).inv_step h₀

theorem exists_matchingStart (h₀ : Isolated a first boot m₀) (hone : m₀.count = 1)
    (hrun : Exec (Step kcalls ttbr1) m₀ es m) (hdeep : 2 ≤ m.count) :
    ∃ m₁, MatchingStart kcalls ttbr1 m₀ es m m₁ ∧ Isolated a first boot m₁ ∧
      m.kept a (m.count - 2) = m₁.running a := by
  have hlow : depth m₀ ≤ m.count - 2 := by
    unfold depth
    omega
  have hd : m.count - 2 < depth m := by
    unfold depth
    omega
  obtain ⟨m₁, ⟨⟨before, e, after, m₂, hes, hbefore, hpush, hdepth, hafter⟩, hm₁⟩, hsaved⟩ :=
    (nesting ha hhalf hfits hdevs hcalls).saved_eq h₀ hrun hlow hd
  have hm₁ : depth m₁ = m.count - 2 := hm₁
  have hdepth : depth m₂ = m.count - 2 + 1 := hdepth
  have h₁ := h₀.run ha hhalf hfits hdevs hcalls hbefore
  have hout := hpush.outcome ha hhalf hfits hdevs hcalls h₁
  have hpos := h₁.held.live.pos
  have hafter : ExecBelow (Step kcalls ttbr1) depth (depth m₁) m₂ after m := hm₁ ▸ hafter
  refine ⟨m₁, ?_, h₁, hsaved⟩
  unfold depth count at *
  rcases hout with ⟨hstack, -, -⟩ | ⟨esr, rfl, hid, hstarted, -, -⟩ | ⟨esr, -, -, hexited, -, -⟩
  · rw [hstack] at hdepth
    omega
  · exact ⟨before, after, esr, m₂, hes, hid, hbefore, hpush, hstarted.len, by unfold count; omega, hafter⟩
  · have := hexited.len
    omega

/-- An exit shows the parent what it saw when it started the child. -/
theorem exit_view (h : Isolated a first boot m) {m₁ : UserMachine} (h₁ : Isolated a first boot m₁)
    (hdeep : 2 ≤ m.count) (hcount : m.count = m₁.count + 1)
    (hkept : m.kept a (m.count - 2) = m₁.running a) {esr : Nat} (hid : callIdOf esr = 0) :
    ∃ m', Step kcalls ttbr1 m (.call esr) m' ∧ m'.count + 1 = m.count ∧
      m'.view = m₁.view.withStatus Kstatus.procOk := by
  obtain ⟨rs', proc, hrun, hexited⟩ :=
    ProcKernel.kcallProcExit_of_deep Memory.ops h.held.live hdeep m.rs
  have hcall : kcallDispatch kcalls esr m.kernel m.rs = some (rs', { m.kernel with proc }) := by
    rw [kcallDispatch_of_bound (hcalls.bound (Kernel.calls_procExit _ progs kdevs hid)),
      Kernel.kcallProcExit, ProcKernel.kcallProcExit_kernelOps, hrun]
    rfl
  have hstep : Step kcalls ttbr1 m (.call esr) ⟨{ m.kernel with proc }, rs'⟩ :=
    .call (fun hread => by rw [hid] at hread; cases hread) hcall
  have hout := hstep.outcome ha hhalf hfits hdevs hcalls h
  have hlen : proc.stack.len + 1 = m.count := hexited.len
  refine ⟨_, hstep, hlen, ?_⟩
  rw [view_eq ha (hout.isolated ha h), view_eq ha h₁]
  obtain ⟨hsp, helr, hregs⟩ := SuspendState.mk.inj hexited.restored
  have hsuspend : (m.kernel.proc.stack.buffer (m.kernel.proc.stack.len - 2)).suspend =
      ⟨m₁.kernel.proc.spEl0, m₁.kernel.proc.elrEl1, m₁.rs⟩ := congrArg Kept.suspend hkept
  have hregion : m.region a (m.count - 2) = m₁.region a (m₁.count - 1) := congrArg Kept.region hkept
  rw [hsuspend] at hsp helr hregs
  refine UserView.ext (funext fun i => ?_) hsp helr ?_
  · simp only [hregs, UserView.withStatus]
    by_cases hi : i.val = 0
    · obtain rfl : i = 0 := Fin.ext hi
      rw [if_pos hi]
      exact Function.update_self ..
    · rw [if_neg hi]
      exact Frame.setStatus_castSucc _ _ fun hzero => hi (congrArg Fin.val hzero)
  · have hbelow : proc.stack.len - 1 < depth m := by
      unfold depth
      omega
    have hplace : proc.stack.len - 1 = m.count - 2 := by omega
    exact (hout.region_eq ha h (.inl hbelow)).trans (hplace ▸ hregion)

end Runs

/-! ## From boot -/

/-- What the tables of process `d` show it. -/
def shows (m : UserMachine) (d : Nat) : Nat → Option UInt8 :=
  m.memory.userLoad (m.kernel.proc.root d)

theorem Isolated.shows_eq {a : MemoryAllocator} {first : Nat} {boot : Nat → Nat} {m : UserMachine}
    (ha : RoomForSpaces a first) (h : Isolated a first boot m) {d : Nat} (hd : d < m.count) :
    m.shows d = m.region a d := by
  have hle := h.held.live.le
  have hdmax : d < kprocMaxCount := Nat.lt_of_lt_of_le hd hle
  have hapart := ha.apart_spaceAt hdmax
  have hroot : m.kernel.proc.root d % 2 ^ 48 = (spaceAt a d).root := by
    rw [ProcKernel.root, h.held.spaces.table d hd, clearKernelSpace_setKernelSpace hapart.root.2,
      Nat.mod_eq_of_lt hapart.root.2]
  funext va
  exact (h.held.spaces.inMemory d hd).userLoad_eq hapart hroot va

/-- The byte at `pa` belongs to one of the kernel's tables: those of the boot code, which are
the last pages of the image, and those that `memory_init` took. -/
def InKernelTable (image : Nat) (tables : List Nat) (pa : Nat) : Prop :=
  image - 3 * 4096 ≤ pa ∧ pa < image ∨ ∃ a ∈ tables, a ≤ pa ∧ pa < a + 4096

/-- What holds of `m`, reached from `m₀`: no store of the program goes to the memory of the
kernel, nor one of the kernel for a program that does not send it there, and the tables of the
kernel are as they were after boot; no step touches a suspended program, and every program but
the first can exit, which shows its parent everything as it was when it started the child. -/
structure RunIsolated (image : Nat) (boot : Memory) (kcalls : Kcalls (Kernel Memory)) (ttbr1 : Nat)
    (m₀ : UserMachine) (es : List UserEvent) (m : UserMachine) : Prop where
  program : ∀ pa < 2 ^ 30, KernelOccupied image boot.tables pa → ∀ va,
    el0Address m.memory.mem m.kernel.proc.ttbr0 ttbr1 .store va ≠ some pa
  copies : ∀ pa < 2 ^ 30, KernelOccupied image boot.tables pa →
    ∀ va, (∀ low < 2 ^ 30, va ≠ kernelSpaceMask + low) →
      el1Address m.memory.mem m.kernel.proc.ttbr0 ttbr1 .store va ≠ some pa
  tables : ∀ pa, InKernelTable image boot.tables pa → byteAt m.memory.mem pa = byteAt boot.mem pa
  suspended : ∀ e m', Step kcalls ttbr1 m e m' → ∀ d < depth m, m'.shows d = m.shows d ∧
    (m'.kernel.proc.stack.buffer d).suspend = (m.kernel.proc.stack.buffer d).suspend
  resumes : 2 ≤ m.count → ∃ m₁, MatchingStart kcalls ttbr1 m₀ es m m₁ ∧
    ∀ esr, callIdOf esr = 0 → ∃ m', Step kcalls ttbr1 m (.call esr) m' ∧ m'.count + 1 = m.count ∧
      m'.view = m₁.view.withStatus Kstatus.procOk

section Kernel

variable {a : MemoryAllocator} {first : Nat} {boot : Nat → Nat} {ttbr1 : Nat} {m : UserMachine}
  (ha : RoomForSpaces a first) (hhalf : HalfBelow first boot ttbr1) (h : Isolated a first boot m)
  {pa : Nat} (hpa : pa < first * 4096)

include ha hhalf h hpa

/-- A program stores to its block and behind 1 GB, but not to the pages of the kernel. -/
theorem Isolated.el0Address_ne (va : Nat) :
    el0Address m.memory.mem m.kernel.proc.ttbr0 ttbr1 .store va ≠ some pa := by
  obtain ⟨hmax, hin, httbr0⟩ := h.top ha
  have hroom := ha.room
  unfold kprocMaxCount at hroom
  rcases Space.inHalf va with hlow | ⟨v, hv, rfl⟩ | hout
  · rw [hin.el0Address_lower (ha.apart_spaceAt hmax) (ha.inReach_spaceAt hmax) httbr0 hlow, ha.block_eq hmax]
    split_ifs
    · exact fun heq => absurd (Option.some.inj heq) (by omega)
    · exact nofun
  · rw [(hhalf _ h.kernel).user _ .store v hv]
    split_ifs
    · exact fun heq => absurd (Option.some.inj heq) (by omega)
    · exact nofun
  · rw [el0Address_of_none (hout m.memory.mem m.kernel.proc.ttbr0 ttbr1)]
    exact nofun

/-- Nor does the kernel, unless it is led into the first gigabyte of its half. -/
theorem Isolated.el1Address_ne {va : Nat} (hspares : ∀ low < 2 ^ 30, va ≠ kernelSpaceMask + low) :
    el1Address m.memory.mem m.kernel.proc.ttbr0 ttbr1 .store va ≠ some pa := by
  obtain ⟨hmax, hin, httbr0⟩ := h.top ha
  have hroom := ha.room
  unfold kprocMaxCount at hroom
  rcases Space.inHalf va with hlow | ⟨v, hv, rfl⟩ | hout
  · rw [hin.el1Address_lower (ha.apart_spaceAt hmax) (ha.inReach_spaceAt hmax) httbr0 hlow, ha.block_eq hmax]
    split_ifs
    · exact fun heq => absurd (Option.some.inj heq) (by omega)
    · exact nofun
  · have hbehind : 2 ^ 30 ≤ v := Nat.le_of_not_lt fun hlow => hspares v hlow rfl
    rw [(hhalf _ h.kernel).kernel _ .store v hv]
    split_ifs
    · exact fun heq => absurd (Option.some.inj heq) (by omega)
    · exact nofun
  · rw [el1Address_of_none (hout m.memory.mem m.kernel.proc.ttbr0 ttbr1)]
    exact nofun

end Kernel

/-- The kernel's tables lie before the spaces of programs. -/
theorem inKernelTable_lt {a : MemoryAllocator} {first image : Nat} {tables : List Nat}
    (ha : RoomForSpaces a first)
    (hkernel : ∀ pa, KernelOccupied image tables pa → pa < first * 4096 ∨ peripherialsStart ≤ pa)
    (htables : ∀ t ∈ tables, t + 4096 ≤ 2 ^ 21) {pa : Nat} (h : InKernelTable image tables pa) :
    pa < first * 4096 := by
  have hstart : peripherialsStart = 0xF0000000 := rfl
  rcases h with ⟨-, himage⟩ | ⟨t, ht, hfirst, hlast⟩
  · by_contra hout
    -- the image would reach from the pages of the kernel to the peripherals
    have hpa := (hkernel pa (.inl himage)).resolve_left hout
    have hbetween := hkernel (peripherialsStart - 1) (.inl (by omega))
    have hroom := ha.room
    unfold kprocMaxCount at hroom
    omega
  · have hlt := htables t ht
    exact (hkernel pa (.inr (.inr (.inl ⟨t, ht, hfirst, hlast⟩)))).resolve_right (by omega)

/-- A step keeps what the suspended programs have, also in the eyes of the hardware. -/
theorem Step.suspended {a : MemoryAllocator} {first : Nat} {boot : Nat → Nat} {ttbr1 : Nat} {b : Board}
    {progs : KprocProgTab} {kdevs : Kdevs (Kernel Memory)} {kcalls : Kcalls (Kernel Memory)}
    {m m' : UserMachine} {e : UserEvent} (ha : RoomForSpaces a first) (hhalf : HalfBelow first boot ttbr1)
    (hfits : ∀ prog, kprocProgOffset + (progs prog).length ≤ 2 ^ 48)
    (hdevs : kdevs.Lists (Kernel.devices b (Memory.kernelOps ttbr1)))
    (hcalls : kcalls.Lists (Kernel.calls (Memory.kernelOps ttbr1) progs kdevs))
    (h : Isolated a first boot m) (hstep : Step kcalls ttbr1 m e m') {d : Nat} (hd : d < depth m) :
    m'.shows d = m.shows d ∧
      (m'.kernel.proc.stack.buffer d).suspend = (m.kernel.proc.stack.buffer d).suspend := by
  have hout := hstep.outcome ha hhalf hfits hdevs hcalls h
  have h' := hout.isolated ha h
  have hregion := hout.region_eq ha h (.inl hd)
  have hpos := h.held.live.pos
  unfold depth count at hd
  rcases hout with ⟨hstack, -, -⟩ | ⟨esr, -, -, hstarted, -, -⟩ | ⟨esr, -, -, hexited, -, -⟩
  · refine ⟨?_, by rw [hstack]⟩
    rw [h'.shows_eq ha (by unfold count; rw [hstack]; omega), h.shows_eq ha (by unfold count; omega),
      hregion]
  · refine ⟨?_, by rw [hstarted.keeps d hd]⟩
    rw [h'.shows_eq ha (by unfold count; rw [hstarted.len]; omega),
      h.shows_eq ha (by unfold count; omega), hregion]
  · have hlen := hexited.len
    refine ⟨?_, by rw [hexited.keeps]⟩
    rw [h'.shows_eq ha (by unfold count; omega), h.shows_eq ha (by unfold count; omega), hregion]

section Boot

variable (memory : Nat → BitVec 64) (mem : Nat → Nat) {image : Nat}

theorem kprocRegion_size_le : kprocRegion.size ≤ 2 ^ 48 := by decide

/-- The kernel's tables lie before the second block. -/
theorem bootMemory_tables_lt (hpage : image % 4096 = 0) (hhigh : image ≤ 0x100000)
    (hlow : 0x80000 < image) : ∀ t ∈ (bootMemory memory mem image).tables, t + 4096 ≤ 2 ^ 21 := by
  have hgb : 4 * gbInB = 2 ^ 32 := by decide
  obtain ⟨n, hn, -, htables⟩ := memoryInit_heap memory (setupTables mem (mmuSpaceStart image))
    (image - 3 * mmuPageSize) hpage (by omega) (Nat.le_refl (2 ^ 32)) (by decide)
  have hfirst : firstFree image (2 ^ 32) = image / 4096 + 32 := rfl
  have hn : n ≤ 21 := hn
  intro t ht
  rw [bootMemory, hgb] at ht
  rw [show setKernelSpace (image - 3 * mmuPageSize) = mmuSpaceStart image from rfl] at htables
  rw [htables, List.mem_reverse, List.mem_map] at ht
  obtain ⟨k, hk, rfl⟩ := ht
  rw [List.mem_range'_1] at hk
  omega

/-- The kernel's half depends on pages of the kernel alone. -/
theorem bootMemory_half {first : Nat} (hpage : image % 4096 = 0) (hlow : 0x80000 < image)
    (hhigh : image ≤ 0x100000)
    (hclear : ∀ w, (image - 3 * 4096) / 8 ≤ w → w < image / 8 → mem w = 0)
    (hkernel : ∀ pa, KernelOccupied image (bootMemory memory mem image).tables pa →
      pa < first * 4096 ∨ peripherialsStart ≤ pa) :
    HalfBelow first (bootMemory memory mem image).mem (image - 3 * 4096) := by
  have hgb : 4 * gbInB = 2 ^ 32 := by decide
  have hstart : peripherialsStart = 0xF0000000 := rfl
  have hinside : image - 3 * 4096 + 3 * 4096 ≤ image := by omega
  have hboot : bootMemory memory mem image = memoryInit memory
      (setupTables mem (setKernelSpace (image - 3 * 4096))) (setKernelSpace (image - 3 * 4096))
      (setKernelSpace image) (2 ^ 32) := by
    rw [bootMemory, hgb]
    rfl
  obtain ⟨t, htree, hidentity, hadded, htables⟩ := memoryInit_tree memory (by omega) hinside
    (fun w hlo hhi => hclear w hlo (by omega)) hpage (by omega)
    (show 2 ^ 32 % 4096 = 0 by decide) (Nat.le_refl _) (by decide) hboot
  have hreach : ∀ a, t.HasTable a → a < physicalEnd := fun a ha => memoryInit_tables_lt memory hinside hpage
    (by omega) (Nat.le_refl _) (by decide) hboot (htables a ha)
  intro mem' hsame
  refine hidentity.kernelHalf (htree.frame fun a w ha hw => hsame w ?_) hreach hadded (Nat.le_refl _)
  -- a table of the kernel is in its image or one of the pages it took
  have hbelow : a % 4096 = 0 ∧ a + 4096 ≤ first * 4096 := by
    obtain ⟨level, n, hnode⟩ := ha
    refine ⟨(htree.address hnode).1, ?_⟩
    rcases htables a ⟨level, n, hnode⟩ with ⟨level', n', hboot⟩ | htaken
    · obtain ⟨⟨hlevel, -⟩, rfl⟩ := bootTree_node_eq_some.mp hboot
      have := hkernel (image - 1) (.inl (by omega))
      omega
    · have hlt := bootMemory_tables_lt memory mem hpage hhigh hlow a htaken
      have := hkernel (a + 4095) (.inr (.inr (.inl ⟨a, htaken, by omega, by omega⟩)))
      omega
  unfold InTable at hw
  omega

/-- The first program is isolated. -/
theorem isolated_of_exec {a : MemoryAllocator} {first ttbr1 : Nat} {progs : KprocProgTab}
    (ha : RoomForSpaces a first) {k₀ k : ProcKernel Memory} (hcap : k₀.stack.capacity = kprocMaxCount)
    (hempty : k₀.stack.len = 0) (hheap : k₀.memory.heap = a) {prog : Nat} (hprog : prog < kprocProgCount)
    (hfit : kprocProgOffset + (progs ⟨prog, hprog⟩).length ≤ 2 ^ 48)
    (hexec : k₀.kprocExec (Memory.kernelOps ttbr1) progs prog = some k) (hlive : k.Live)
    (uart : DevUart) (rs : Frame) : Isolated a first k₀.memory.mem ⟨{ proc := k, uart }, rs⟩ := by
  have hheld : k₀.SpacesHeld a := by
    refine ⟨?_, fun i hi => absurd hi (by omega), fun i hi => absurd hi (by omega)⟩
    rw [hempty, hheap]
    rfl
  have hroom : k₀.stack.len < kprocMaxCount := hempty ▸ by decide
  have hmax : 0 < kprocMaxCount := by decide
  rw [ProcKernel.kprocExec, ProcKernel.kprocProgTab_of_lt progs hprog] at hexec
  have henter : k₀.kprocEnter Memory.ops (progs ⟨prog, hprog⟩) = some k :=
    (hheld.kprocEnter_kernelOps ha hcap hroom hfit).symm.trans hexec
  obtain ⟨hready, hcopied⟩ := hheld.spaceReady ha hcap hroom rfl rfl henter
  have hcopy := hready.inMemory.bytecpy_blockOnly (ha.apart_spaceAt hroom) hready.ttbr0
    kprocProgOffset (progs ⟨prog, hprog⟩)
  refine ⟨⟨hlive, (hheld.enter ha hcap hroom henter).held⟩, fun w hw => ?_⟩
  have hfirst := ha.room
  unfold kprocMaxCount at hfirst
  rw [show (UserMachine.mk ⟨k, uart⟩ rs).memory = k.memory from rfl, hcopied]
  refine (hcopy.frame w fun pa hlo _ => ?_).trans (hready.frame w fun htable => ?_)
  · rw [ha.block_eq hroom] at hlo
    omega
  · rw [ha.isTableWord_iff hroom] at htable
    omega

/-- What the runs of programs begin with. -/
structure Booted (image : Nat) (boot : Memory) (b : Board) (progs : KprocProgTab) (ttbr1 first : Nat)
    (kdevs : Kdevs (Kernel Memory)) (kcalls : Kcalls (Kernel Memory)) (k : ProcKernel Memory) : Prop where
  room : RoomForSpaces boot.heap first
  kernel : ∀ pa, KernelOccupied image boot.tables pa → pa < first * 4096 ∨ peripherialsStart ≤ pa
  tables : ∀ t ∈ boot.tables, t + 4096 ≤ 2 ^ 21
  half : HalfBelow first boot.mem ttbr1
  devices : kdevs.Lists (Kernel.devices b (Memory.kernelOps ttbr1))
  calls : kcalls.Lists (Kernel.calls (Memory.kernelOps ttbr1) progs kdevs)
  isolated : ∀ uart rs, Isolated boot.heap first boot.mem ⟨{ proc := k, uart }, rs⟩
  one : k.stack.len = 1

theorem Booted.runIsolated {boot : Memory} {b : Board} {progs : KprocProgTab} {ttbr1 first : Nat}
    {kdevs : Kdevs (Kernel Memory)} {kcalls : Kcalls (Kernel Memory)} {k : ProcKernel Memory} {uart : DevUart}
    {rs : Frame} {es : List UserEvent} {m : UserMachine}
    (h : Booted image boot b progs ttbr1 first kdevs kcalls k)
    (hfits : ∀ prog, kprocProgOffset + (progs prog).length ≤ 2 ^ 48)
    (hrun : Exec (Step kcalls ttbr1) ⟨{ proc := k, uart }, rs⟩ es m) :
    RunIsolated image boot kcalls ttbr1 ⟨{ proc := k, uart }, rs⟩ es m := by
  have hend := (h.isolated uart rs).run h.room h.half hfits h.devices h.calls hrun
  have hlow : ∀ pa < 2 ^ 30, KernelOccupied image boot.tables pa → pa < first * 4096 := by
    have hstart : peripherialsStart = 0xF0000000 := rfl
    exact fun pa hpa hoccupied => (h.kernel pa hoccupied).resolve_right (by omega)
  refine ⟨fun pa hpa hoccupied => hend.el0Address_ne h.room h.half (hlow pa hpa hoccupied),
    fun pa hpa hoccupied _ => hend.el1Address_ne h.room h.half (hlow pa hpa hoccupied),
    fun pa htable => byteAt_congr (hend.kernel _ ?_),
    fun e m' hstep d hd => hstep.suspended h.room h.half hfits h.devices h.calls hend hd, fun hdeep => ?_⟩
  · have hlt := inKernelTable_lt h.room h.kernel h.tables htable
    omega
  · obtain ⟨m₁, hmatching, h₁, hkept⟩ := exists_matchingStart h.room h.half hfits h.devices h.calls
      (h.isolated uart rs) h.one hrun hdeep
    have hcount : m.count = m₁.count + 1 := by
      obtain ⟨-, -, -, -, -, -, -, -, -, hcount, -⟩ := hmatching
      exact hcount
    exact ⟨m₁, hmatching, fun esr hid =>
      exit_view h.room h.half hfits h.devices h.calls hend h₁ hdeep hcount hkept hid⟩

/-- The boot, for every image in the first MB that ends with the boot's zeroed tables. -/
theorem exists_booted (b : Board) (progs : KprocProgTab)
    (hfits : ∀ prog, kprocProgOffset + (progs prog).length ≤ 2 ^ 48) (hpage : image % 4096 = 0)
    (hlow : 0x80000 < image) (hhigh : image ≤ 0x100000)
    (hclear : ∀ w, (image - 3 * 4096) / 8 ≤ w → w < image / 8 → mem w = 0)
    {k₀ : ProcKernel Memory} (hcap : k₀.stack.capacity = kprocMaxCount) (hempty : k₀.stack.len = 0)
    (hmemory : k₀.memory = bootMemory memory mem image) {ttbr1 : Nat} (httbr1 : ttbr1 = image - 3 * 4096) :
    ∃ first kdevs kcalls k, Kernel.setupDevices b (Memory.kernelOps ttbr1) = some (2, kdevs) ∧
      Kernel.setupSyscalls (Memory.kernelOps ttbr1) progs kdevs = some (4, kcalls) ∧
      k₀.kprocExec (Memory.kernelOps ttbr1) progs 0 = some k ∧
      Booted image (bootMemory memory mem image) b progs ttbr1 first kdevs kcalls k := by
  obtain ⟨first, ha, hkernel⟩ := bootMemory_room memory mem hpage hlow hhigh
  have hhalf := bootMemory_half memory mem hpage hlow hhigh hclear hkernel
  rw [← httbr1] at hhalf
  obtain ⟨kdevs, hsetup, hdevs⟩ := Kernel.setupDevices_lists b (Memory.kernelOps ttbr1)
  obtain ⟨kcalls, hsetup', hcalls⟩ := Kernel.setupSyscalls_lists (Memory.kernelOps ttbr1) progs kdevs
  have hprog : 0 < kprocProgCount := by decide
  obtain ⟨k, hexec, hlive, hone⟩ :=
    ProcKernel.kprocExec_spec (Memory.kernelOps ttbr1) progs hcap hempty hprog
  refine ⟨first, kdevs, kcalls, k, hsetup, hsetup', hexec, ha, hkernel,
    bootMemory_tables_lt memory mem hpage hhigh hlow, hhalf, hdevs, hcalls,
    fun uart rs => ?_, hone⟩
  have h₀ := isolated_of_exec ha hcap hempty (by rw [hmemory]) hprog (hfits _) hexec hlive uart rs
  rwa [hmemory] at h₀

/-- The memory of suspended programs and of the kernel, over every run from the first program
on in which no read call is pointed at the first gigabyte of the kernel's half, with programs
that fit their region. -/
theorem runs_isolated (b : Board) (progs : KprocProgTab)
    (hfits : ∀ prog, kprocProgOffset + (progs prog).length ≤ kprocRegion.size) (hpage : image % 4096 = 0)
    (hlow : 0x80000 < image) (hhigh : image ≤ 0x100000)
    (hclear : ∀ w, (image - 3 * 4096) / 8 ≤ w → w < image / 8 → mem w = 0)
    {k₀ : ProcKernel Memory} (hcap : k₀.stack.capacity = kprocMaxCount) (hempty : k₀.stack.len = 0)
    (hmemory : k₀.memory = bootMemory memory mem image) {ttbr1 : Nat} (httbr1 : ttbr1 = image - 3 * 4096) :
    ∃ kdevs kcalls k, Kernel.setupDevices b (Memory.kernelOps ttbr1) = some (2, kdevs) ∧
      Kernel.setupSyscalls (Memory.kernelOps ttbr1) progs kdevs = some (4, kcalls) ∧
      k₀.kprocExec (Memory.kernelOps ttbr1) progs 0 = some k ∧
      ∀ (uart : DevUart) (rs : Frame) (es : List UserEvent) (m : UserMachine),
        Exec (Step kcalls ttbr1) ⟨{ proc := k, uart }, rs⟩ es m →
        RunIsolated image (bootMemory memory mem image) kcalls ttbr1 ⟨{ proc := k, uart }, rs⟩ es m := by
  obtain ⟨first, kdevs, kcalls, k, hsetup, hsetup', hexec, h⟩ := exists_booted memory mem b progs
    (fun prog => (hfits prog).trans kprocRegion_size_le) hpage hlow hhigh hclear hcap hempty hmemory httbr1
  exact ⟨kdevs, kcalls, k, hsetup, hsetup', hexec, fun uart rs es m hrun =>
    h.runIsolated (fun prog => (hfits prog).trans kprocRegion_size_le) hrun⟩

end Boot

theorem runs_isolated_bootedKernel : ∃ kdevs kcalls k,
    Kernel.setupDevices UartSession.slowBoard (Memory.kernelOps 0xFD000) = some (2, kdevs) ∧
      Kernel.setupSyscalls (Memory.kernelOps 0xFD000) Machine.noText kdevs = some (4, kcalls) ∧
      Machine.bootedKernel.kprocExec (Memory.kernelOps 0xFD000) Machine.noText 0 = some k ∧
      ∀ (uart : DevUart) (rs : Frame) (es : List UserEvent) (m : UserMachine),
        Exec (Step kcalls 0xFD000) ⟨{ proc := k, uart }, rs⟩ es m →
        RunIsolated 0x100000 (bootMemory (fun _ => 0#64) (fun _ => 0) 0x100000) kcalls 0xFD000
          ⟨{ proc := k, uart }, rs⟩ es m :=
  runs_isolated (fun _ => 0#64) (fun _ => 0) UartSession.slowBoard Machine.noText
    (fun _ => show kprocProgOffset ≤ kprocRegion.size by decide) (by decide) (by decide) (by decide)
    (fun _ _ _ => rfl) rfl rfl Machine.bootedKernel_memory (by decide)

/-! ## Reads into the kernel's half -/

/-- The frame of a read of one byte from the UART to `dst`. -/
def readFrame (dst : Nat) : Frame := fun i =>
  if i = 0 then 2 else if i = 1 then BitVec.ofNat 64 dst else 1

/-- A read of one byte gives the first one that is there. -/
theorem kdevRead_one {b : Board} {uart : DevUart} {c : UInt8} {rest : List UInt8} (hring : uart.rx.WellFormed)
    (hpresent : DevUart.present uart = c :: rest) (dst : Nat → UInt8) :
    ∃ bytes uart', uart.kdevRead b dst 1 = some (1, bytes, uart') ∧ bytes 0 = c := by
  obtain ⟨r, bytes, uart', hread, hle, hfirst⟩ := DevUart.kdevRead_gives (b := b) hring dst 1
  rw [hpresent, List.take_succ_cons, List.take_zero] at hfirst
  obtain rfl : r = 1 := by
    have hlen := hfirst.length_le
    rw [List.length_singleton, List.length_map, List.length_range] at hlen
    omega
  exact ⟨bytes, uart', hread, (List.cons.inj (hfirst.eq_of_length rfl)).1.symm⟩

/-- Whatever the UART has received, a read call puts it wherever it is told below 1 GB: into
the kernel, its tables or a suspended program. -/
theorem read_overwrites {a : MemoryAllocator} {first ttbr1 : Nat} {boot : Nat → Nat} {b : Board}
    {progs : KprocProgTab} {kdevs : Kdevs (Kernel Memory)} {kcalls : Kcalls (Kernel Memory)}
    (hhalf : HalfBelow first boot ttbr1)
    (hdevs : kdevs.Lists (Kernel.devices b (Memory.kernelOps ttbr1)))
    (hcalls : kcalls.Lists (Kernel.calls (Memory.kernelOps ttbr1) progs kdevs)) {m : UserMachine}
    (h : Isolated a first boot m) {pa : Nat} (hpa : pa < 2 ^ 30) {uart : DevUart} {c : UInt8}
    {rest : List UInt8} (hring : uart.rx.WellFormed) (hpresent : DevUart.present uart = c :: rest) :
    ∃ rs s, kcallDispatch kcalls 0x56000003 { m.kernel with uart }
        (readFrame (kernelSpaceMask + pa)) = some (rs, s) ∧
      s.proc.memory.mem = storeByte m.memory.mem pa c := by
  have hmask : kernelSpaceMask = 2 ^ 64 - 2 ^ 48 := by decide
  obtain ⟨dst, hdst⟩ : ∃ dst, dst = kernelSpaceMask + pa := ⟨_, rfl⟩
  have hbound : kcalls.Bound (callIdOf 0x56000003) (kcallIoRead kdevs) := hcalls.bound rfl
  have hdevId : (readFrame dst).int32 0 = 2 := rfl
  have hptr : (readFrame dst 1).toNat = dst := Nat.mod_eq_of_lt (by omega)
  have hcount : (readFrame dst).uint32 2 = 1 := rfl
  obtain ⟨bytes, uart', hread, hbyte⟩ := kdevRead_one (b := b) hring hpresent
    (Kernel.userBytes (Memory.kernelOps ttbr1) { m.kernel with uart } dst)
  have hat : el1Address m.memory.mem m.kernel.proc.ttbr0 ttbr1 .store dst = some pa := by
    rw [hdst, (hhalf _ h.kernel).kernel _ _ _ (by omega), if_pos (by omega)]
  have hcopy : (Memory.kernelOps ttbr1).copyOut m.kernel.proc.ttbr0 dst ((List.range 1).map bytes)
      m.memory = some (m.memory.el1Store m.kernel.proc.ttbr0 ttbr1 dst c) := by
    rw [show (List.range 1).map bytes = [c] from congrArg (fun c => [c]) hbyte, MemoryOps.copyOut,
      if_pos (show (Memory.kernelOps ttbr1).reaches m.memory _ .store dst = true from
        Option.isSome_of_eq_some hat)]
    rfl
  have hstore : (m.memory.el1Store m.kernel.proc.ttbr0 ttbr1 dst c).mem = storeByte m.memory.mem pa c := by
    rw [Memory.el1Store, hat]
    rfl
  rw [← hdst, kcallDispatch_of_bound hbound, kcallIoRead, kdevIoRead, hdevId, hptr, hcount,
    Kernel.kdevIo_of_uart _ hdevs]
  have hdev : (Kernel.devUart b (Memory.kernelOps ttbr1)).read { m.kernel with uart } dst 1 =
      some (1, { proc := { m.kernel.proc with memory := m.memory.el1Store m.kernel.proc.ttbr0 ttbr1 dst c }
                 uart := uart' }) := by
    simp only [Kernel.devUart, hread, Option.bind_some]
    exact congrArg (Option.map _) hcopy
  rw [hdev]
  exact ⟨_, _, rfl, hstore⟩

/-- In every state reached from boot, a program can have the kernel store any byte anywhere
below 1 GB, by a call that reads it from a UART where it is the next. -/
theorem reads_overwrite (memory : Nat → BitVec 64) (mem : Nat → Nat) {image : Nat} (b : Board)
    (progs : KprocProgTab) (hfits : ∀ prog, kprocProgOffset + (progs prog).length ≤ 2 ^ 48)
    (hpage : image % 4096 = 0) (hlow : 0x80000 < image) (hhigh : image ≤ 0x100000)
    (hclear : ∀ w, (image - 3 * 4096) / 8 ≤ w → w < image / 8 → mem w = 0)
    {k₀ : ProcKernel Memory} (hcap : k₀.stack.capacity = kprocMaxCount) (hempty : k₀.stack.len = 0)
    (hmemory : k₀.memory = bootMemory memory mem image) {ttbr1 : Nat} (httbr1 : ttbr1 = image - 3 * 4096) :
    ∃ kdevs kcalls k, Kernel.setupDevices b (Memory.kernelOps ttbr1) = some (2, kdevs) ∧
      Kernel.setupSyscalls (Memory.kernelOps ttbr1) progs kdevs = some (4, kcalls) ∧
      k₀.kprocExec (Memory.kernelOps ttbr1) progs 0 = some k ∧
      ∀ (uart : DevUart) (rs : Frame) (es : List UserEvent) (m : UserMachine),
        Exec (Step kcalls ttbr1) ⟨{ proc := k, uart }, rs⟩ es m →
        ∀ pa < 2 ^ 30, ∀ (uart' : DevUart) (c : UInt8) (rest : List UInt8), uart'.rx.WellFormed →
          DevUart.present uart' = c :: rest → ∃ rs' s', kcallDispatch kcalls 0x56000003
            { m.kernel with uart := uart' } (readFrame (kernelSpaceMask + pa)) = some (rs', s') ∧
          s'.proc.memory.mem = storeByte m.memory.mem pa c := by
  obtain ⟨first, kdevs, kcalls, k, hsetup, hsetup', hexec, h⟩ := exists_booted memory mem b progs hfits
    hpage hlow hhigh hclear hcap hempty hmemory httbr1
  refine ⟨kdevs, kcalls, k, hsetup, hsetup', hexec, fun uart rs es m hrun pa hpa uart' c rest hring hpresent => ?_⟩
  have hisolated := (h.isolated uart rs).run h.room h.half hfits h.devices h.calls hrun
  exact read_overwrites h.half h.devices h.calls hisolated hpa hring hpresent

/-- A byte that has just arrived goes into the first instruction of the kernel. -/
theorem reads_overwrite_bootedKernel : ∃ kdevs kcalls k,
    Kernel.setupDevices UartSession.slowBoard (Memory.kernelOps 0xFD000) = some (2, kdevs) ∧
      Kernel.setupSyscalls (Memory.kernelOps 0xFD000) Machine.noText kdevs = some (4, kcalls) ∧
      Machine.bootedKernel.kprocExec (Memory.kernelOps 0xFD000) Machine.noText 0 = some k ∧
      ∀ c, ∃ rs' s', kcallDispatch kcalls 0x56000003
          { proc := k, uart := .init { UartSession.idleUart with rxFifo := [c] } (fun _ => 0) fun _ => 0 }
          (readFrame (kernelSpaceMask + 0x80000)) = some (rs', s') ∧
        s'.proc.memory.mem = storeByte k.memory.mem 0x80000 c := by
  obtain ⟨kdevs, kcalls, k, hsetup, hsetup', hexec, h⟩ :=
    reads_overwrite (fun _ => 0#64) (fun _ => 0) UartSession.slowBoard Machine.noText
      (fun _ => show kprocProgOffset ≤ 2 ^ 48 by decide) (by decide) (by decide) (by decide)
      (fun _ _ _ => rfl) rfl rfl Machine.bootedKernel_memory (show 0xFD000 = 0x100000 - 3 * 4096 by decide)
  exact ⟨kdevs, kcalls, k, hsetup, hsetup', hexec, fun c =>
    h (.init UartSession.idleUart (fun _ => 0) fun _ => 0) (fun _ => 0) [] _ .nil 0x80000 (by decide) _ c []
      (Ring.init_wellFormed _ (by decide) (by decide)) rfl⟩

end UserMachine

end PiVOS
