-- SUMMARY: Nested processes resume where they started their child.
import PiVOS.Proc
import PiVOS.Lib.Nesting

/-!
# Nested processes

The processes as a system with nested activations: a start goes one deeper and
saves the user state of the parent, an exit comes back up. One lemma for each
outcome of the two calls says everything it does to the process table.
-/

namespace PiVOS

namespace ProcKernel

variable {M : Type} (ops : MemoryOps M) (progs : KprocProgTab) {k : ProcKernel M}

/-- `TTBR0` for process `proc`: its level-0 table, with the number of processes as ASID. -/
def tagged (k : ProcKernel M) (proc : Nat) : Nat :=
  k.stack.len * 2 ^ 48 + (k.stack.buffer proc).level0Table % 2 ^ 48

/-- At least one process, at most as many as there is room for, and `TTBR0` is that
of the top one. -/
structure Live (k : ProcKernel M) : Prop where
  capacity : k.stack.capacity = kprocMaxCount
  pos : 1 ≤ k.stack.len
  le : k.stack.len ≤ kprocMaxCount
  ttbr0 : k.ttbr0 = k.tagged (k.stack.len - 1)

theorem kprocMemSwitch_eq (hlen : k.stack.len ≤ kprocMaxCount) (proc : Nat) :
    k.kprocMemSwitch proc = { k with ttbr0 := k.tagged proc } := by
  have hasid : k.stack.len <<< 48 < 2 ^ 64 := by
    rw [Nat.shiftLeft_eq]
    unfold kprocMaxCount at hlen
    omega
  rw [kprocMemSwitch, u64_of_lt hasid, clearKernelSpace_eq, Nat.shiftLeft_eq, Nat.mul_comm, Nat.lor_comm,
    ← Nat.two_pow_add_eq_or_of_lt (Nat.mod_lt _ (Nat.two_pow_pos 48)), Nat.mul_comm]
  rfl

theorem kprocProgTab_of_lt {progId : Nat} (h : progId < kprocProgCount) :
    kprocProgTab progs progId = some (progs ⟨progId, h⟩) := dif_pos h

/-! ## Entering a program -/

/-- `k'` is `k` with one process more, which starts at its program's first instruction. -/
structure Entered (k k' : ProcKernel M) : Prop where
  capacity : k'.stack.capacity = k.stack.capacity
  len : k'.stack.len = k.stack.len + 1
  suspended : ∀ i < k.stack.len, k'.stack.buffer i = k.stack.buffer i
  ttbr0 : k'.ttbr0 = k'.tagged k.stack.len
  spEl0 : k'.spEl0 = BitVec.ofNat 64 kprocProgOffset
  elrEl1 : k'.elrEl1 = BitVec.ofNat 64 kprocProgOffset

theorem kprocEnter_spec (hcap : k.stack.capacity = kprocMaxCount)
    (hroom : k.stack.len < kprocMaxCount) (text : List UInt8) :
    ∃ k', k.kprocEnter ops text = some k' ∧ k.Entered k' := by
  have halloc := Stack.alloc_of_room (hcap ▸ hroom) (hcap ▸ by decide)
  have hswitch : ∀ k₁ : ProcKernel M, k₁.stack.len = k.stack.len + 1 →
      k₁.kprocMemSwitch k.stack.len = { k₁ with ttbr0 := k₁.tagged k.stack.len } :=
    fun k₁ hlen => kprocMemSwitch_eq (hlen ▸ hroom) _
  rw [kprocEnter, kprocAlloc, halloc]
  simp only [Option.map_some]
  rw [hswitch _ rfl]
  refine ⟨_, rfl, rfl, rfl, fun i hi => ?_, rfl, rfl, rfl⟩
  simp only [kprocInit]
  rw [Stack.modify_of_ne _ (Nat.ne_of_lt hi)]

theorem Entered.live {k' : ProcKernel M} (h : k.Entered k') (hcap : k.stack.capacity = kprocMaxCount)
    (hroom : k.stack.len < kprocMaxCount) : k'.Live where
  capacity := h.capacity.trans hcap
  pos := h.len ▸ Nat.le_add_left 1 _
  le := h.len ▸ hroom
  ttbr0 := by rw [h.ttbr0, h.len, Nat.add_sub_cancel]

theorem kprocExec_spec (hcap : k.stack.capacity = kprocMaxCount) (hempty : k.stack.len = 0)
    {prog : Nat} (hprog : prog < kprocProgCount) :
    ∃ k', k.kprocExec ops progs prog = some k' ∧ k'.Live ∧ k'.stack.len = 1 := by
  have hroom : k.stack.len < kprocMaxCount := hempty ▸ by decide
  obtain ⟨k', hrun, hent⟩ := kprocEnter_spec ops hcap hroom (progs ⟨prog, hprog⟩)
  refine ⟨k', ?_, hent.live hcap hroom, by rw [hent.len, hempty]⟩
  rw [kprocExec, kprocProgTab_of_lt progs hprog]
  exact hrun

/-! ## The calls -/

theorem Live.not_full (hlive : k.Live) (hroom : k.stack.len < kprocMaxCount) : ¬k.stack.full = true :=
  fun h => Nat.ne_of_lt hroom ((Stack.full_iff.mp h).trans hlive.capacity)

/-- With room for a process, a start of an unknown program uses an entry past the table. -/
theorem kcallProcStart_of_unknown (hroom : ¬k.stack.full = true) {rs : Frame}
    (hprog : ¬rs.uint32 0 < kprocProgCount) : k.kcallProcStart ops progs rs = none := by
  have hnone : kprocProgTab progs (rs.uint32 0) = none := dif_neg hprog
  rw [kcallProcStart, kprocStart, hnone, if_neg hroom]
  rfl

/-- A start that finds the stack full changes only the status, whatever the program. -/
theorem kcallProcStart_of_stack_full (hfull : k.stack.full = true) (rs : Frame) :
    k.kcallProcStart ops progs rs = some (rs.setStatus Kstatus.procStackFull, k) := by
  rw [kcallProcStart, kprocStart, if_pos hfull]
  rfl

/-- A start that returns has found the stack full, or a program of the table. -/
theorem kcallProcStart_cases {ops progs} {rs rs' : Frame} {k' : ProcKernel M}
    (h : k.kcallProcStart ops progs rs = some (rs', k')) :
    (rs' = rs.setStatus Kstatus.procStackFull ∧ k' = k) ∨ rs.uint32 0 < kprocProgCount := by
  by_cases hfull : k.stack.full = true
  · rw [kcallProcStart_of_stack_full ops progs hfull] at h
    obtain ⟨rfl, rfl⟩ := Prod.mk.inj (Option.some.inj h)
    exact .inl ⟨rfl, rfl⟩
  · refine .inr ?_
    by_contra hprog
    rw [kcallProcStart_of_unknown ops progs hfull hprog] at h
    cases h

theorem kcallProcStart_of_full (hlive : k.Live) (hfull : k.stack.len = kprocMaxCount) (rs : Frame) :
    k.kcallProcStart ops progs rs = some (rs.setStatus Kstatus.procStackFull, k) :=
  kcallProcStart_of_stack_full ops progs (Stack.full_iff.mpr (hfull.trans hlive.capacity.symm)) rs

/-- What a successful start does: the parent's user state goes into its slot, and
a new process is entered above it. -/
structure Started (k : ProcKernel M) (rs : Frame) (k' : ProcKernel M) : Prop where
  live : k'.Live
  len : k'.stack.len = k.stack.len + 1
  saved : (k'.stack.buffer (k.stack.len - 1)).suspend = ⟨k.spEl0, k.elrEl1, rs⟩
  keeps : ∀ i < k.stack.len - 1, k'.stack.buffer i = k.stack.buffer i

theorem kcallProcStart_of_room (hlive : k.Live) (hroom : k.stack.len < kprocMaxCount) {rs : Frame}
    (hprog : rs.uint32 0 < kprocProgCount) :
    ∃ k', k.kcallProcStart ops progs rs = some (rs.setStatus Kstatus.procOk, k') ∧ k.Started rs k' := by
  have hpos := hlive.pos
  have hfull := hlive.not_full hroom
  obtain ⟨k', hrun, hent⟩ := kprocEnter_spec ops
    (k := (k.kprocMemSwitch (k.stack.len - 1)).kprocSuspend (k.stack.len - 1) rs)
    hlive.capacity hroom (progs ⟨rs.uint32 0, hprog⟩)
  refine ⟨k', ?_, hent.live hlive.capacity hroom, hent.len, ?_, fun i hi => ?_⟩
  · rw [kcallProcStart, kprocStart, kprocProgTab_of_lt progs hprog]
    simp [hfull, Stack.peek_of_pos hlive.pos, hrun]
  · rw [hent.suspended _ (show k.stack.len - 1 < k.stack.len by omega)]
    rw [kprocSuspend, Stack.modify_self]
    rfl
  · rw [hent.suspended _ (show i < k.stack.len by omega)]
    rw [kprocSuspend, Stack.modify_of_ne _ (Nat.ne_of_lt hi)]
    rfl

/-- The last process cannot exit; its call changes only the status. -/
theorem kcallProcExit_of_last (hlast : k.stack.len = 1) (rs : Frame) :
    k.kcallProcExit ops rs = some (rs.setStatus Kstatus.procLast, k) := by
  rw [kcallProcExit, kprocExit, kprocCount, if_pos hlast]
  rfl

/-- What a successful exit does: the user state comes from the parent's slot. -/
structure Exited (k k' : ProcKernel M) (rs' : Frame) : Prop where
  live : k'.Live
  len : k'.stack.len + 1 = k.stack.len
  keeps : k'.stack.buffer = k.stack.buffer
  restored : (⟨k'.spEl0, k'.elrEl1, rs'⟩ : SuspendState) =
    { (k.stack.buffer (k.stack.len - 2)).suspend with
      generalRegs := (k.stack.buffer (k.stack.len - 2)).suspend.generalRegs.setStatus Kstatus.procOk }

theorem kcallProcExit_of_deep (hlive : k.Live) (hdeep : 2 ≤ k.stack.len) (rs : Frame) :
    ∃ rs' k', k.kcallProcExit ops rs = some (rs', k') ∧ k.Exited k' rs' := by
  have hle := hlive.le
  have hfree := Stack.free_of_pos (Nat.lt_of_lt_of_le Nat.zero_lt_two hdeep)
  have hpeek : k.stack.free.peek = some (k.stack.len - 2) := by
    rw [hfree, Stack.peek_of_pos (by simp only; omega)]
    rfl
  have hswitch := kprocMemSwitch_eq (k := { k with
      memory := ops.destroyContext k.memory (k.stack.buffer (k.stack.len - 1)).level0Table
      stack := k.stack.free }) (by rw [hfree]; simp only; omega) (k.stack.len - 2)
  rw [kcallProcExit, kprocExit, kprocCount, if_neg (by omega), kprocFree,
    Stack.peek_of_pos hlive.pos]
  simp only [Option.map_some, Option.bind_eq_bind, Option.bind_some, hpeek, hswitch]
  refine ⟨_, _, rfl, ⟨?_, ?_, ?_, ?_⟩, ?_, ?_, ?_⟩
  all_goals simp only [kprocRestore, hfree]
  · exact hlive.capacity
  · omega
  · omega
  · rw [show k.stack.len - 1 - 1 = k.stack.len - 2 by omega]
    rfl
  · omega
  · rfl

end ProcKernel

/-! ## The machine -/

/-- The kernel and the user's general registers, as a kernel call finds them in its frame. -/
structure Machine (M : Type) where
  kernel : ProcKernel M
  rs : Frame

inductive ProcEvent
  | user (rs : Frame) (sp elr : BitVec 64)
  | start
  | exit

namespace Machine

variable {M : Type} {ops : MemoryOps M} {progs : KprocProgTab}

/-- The program does what it likes with its registers, or makes one of the two calls. -/
inductive Step (ops : MemoryOps M) (progs : KprocProgTab) : Machine M → ProcEvent → Machine M → Prop
  | user (m : Machine M) (rs : Frame) (sp elr : BitVec 64) :
    Step ops progs m (.user rs sp elr) { kernel := { m.kernel with spEl0 := sp, elrEl1 := elr }, rs }
  | start {m : Machine M} {rs : Frame} {kernel : ProcKernel M}
      (hprog : m.rs.uint32 0 < kprocProgCount)
      (h : m.kernel.kcallProcStart ops progs m.rs = some (rs, kernel)) :
    Step ops progs m .start { kernel, rs }
  | exit {m : Machine M} {rs : Frame} {kernel : ProcKernel M}
      (h : m.kernel.kcallProcExit ops m.rs = some (rs, kernel)) :
    Step ops progs m .exit { kernel, rs }

/-- The part of the machine a suspended process finds again. -/
def userState (m : Machine M) : SuspendState :=
  { sp := m.kernel.spEl0, elr := m.kernel.elrEl1, generalRegs := m.rs }

/-- The number of suspended processes; all but the top one are. -/
def depth (m : Machine M) : Nat := m.kernel.stack.len - 1

/-- The user state saved for process `d`. -/
def slot (m : Machine M) (d : Nat) : SuspendState := (m.kernel.stack.buffer d).suspend

def withStatus (m : Machine M) (status : Int) : Machine M := { m with rs := m.rs.setStatus status }

/-- What a step from a live machine can be. -/
theorem Step.cases {m m' : Machine M} {e : ProcEvent} (hlive : m.kernel.Live)
    (h : Step ops progs m e m') :
    (m'.kernel.stack = m.kernel.stack ∧ m'.kernel.ttbr0 = m.kernel.ttbr0) ∨
    (e = .start ∧ m.kernel.Started m.rs m'.kernel) ∨
    (e = .exit ∧ m.kernel.Exited m'.kernel m'.rs) := by
  cases h with
  | user rs sp elr => exact .inl ⟨rfl, rfl⟩
  | @start rs kernel hprog h =>
    rcases Nat.lt_or_ge m.kernel.stack.len kprocMaxCount with hroom | hfull
    · obtain ⟨k', hrun, hstarted⟩ := ProcKernel.kcallProcStart_of_room ops progs hlive hroom hprog
      obtain ⟨-, rfl⟩ := Prod.mk.inj (Option.some.inj (h.symm.trans hrun))
      exact .inr (.inl ⟨rfl, hstarted⟩)
    · have hrun := ProcKernel.kcallProcStart_of_full ops progs hlive (le_antisymm hlive.le hfull) m.rs
      obtain ⟨-, rfl⟩ := Prod.mk.inj (Option.some.inj (h.symm.trans hrun))
      exact .inl ⟨rfl, rfl⟩
  | @exit rs kernel h =>
    rcases Nat.lt_or_ge m.kernel.stack.len 2 with hone | hdeep
    · have hrun := ProcKernel.kcallProcExit_of_last ops
        (le_antisymm (Nat.le_of_lt_succ hone) hlive.pos) m.rs
      obtain ⟨-, rfl⟩ := Prod.mk.inj (Option.some.inj (h.symm.trans hrun))
      exact .inl ⟨rfl, rfl⟩
    · obtain ⟨rs', k', hrun, hexited⟩ := ProcKernel.kcallProcExit_of_deep ops hlive hdeep m.rs
      obtain ⟨rfl, rfl⟩ := Prod.mk.inj (Option.some.inj (h.symm.trans hrun))
      exact .inr (.inr ⟨rfl, hexited⟩)

theorem Step.live {m m' : Machine M} {e : ProcEvent} (hlive : m.kernel.Live)
    (h : Step ops progs m e m') : m'.kernel.Live := by
  rcases h.cases hlive with ⟨hstack, httbr0⟩ | ⟨-, hstarted⟩ | ⟨-, hexited⟩
  · obtain ⟨hcap, hpos, hle, htop⟩ := hlive
    refine ⟨?_, ?_, ?_, ?_⟩
    · rwa [hstack]
    · rwa [hstack]
    · rwa [hstack]
    · rw [httbr0, htop, ProcKernel.tagged, ProcKernel.tagged, hstack]
  · exact hstarted.live
  · exact hexited.live

/-- The process table as a record of suspended user states. -/
def nesting (ops : MemoryOps M) (progs : KprocProgTab) : Nesting (Step ops progs) where
  Snapshot := SuspendState
  depth := depth
  snapshot := userState
  saved := slot
  Inv m := m.kernel.Live
  inv_step _ _ _ hlive h := h.live hlive
  cases := by
    intro m e m' hlive h
    have hpos := hlive.pos
    rcases h.cases hlive with ⟨hstack, -⟩ | ⟨-, hstarted⟩ | ⟨-, hexited⟩
    · refine .inr ⟨by rw [depth, depth, hstack], fun d _ => by rw [slot, slot, hstack]⟩
    · refine .inl ⟨?_, hstarted.saved, fun d hd => congrArg _ (hstarted.keeps d hd)⟩
      rw [depth, depth, hstarted.len, Nat.add_sub_cancel, Nat.sub_add_cancel hpos]
    · refine .inr ⟨?_, fun d _ => by rw [slot, slot, hexited.keeps]⟩
      rw [depth, depth, ← hexited.len]
      exact Nat.sub_le_sub_right (Nat.le_succ _) 1

/-- The call returns with `status` in `x0` and changes nothing else. -/
def Refuses (call : ProcKernel M → Frame → Option (Frame × ProcKernel M)) (m : Machine M)
    (status : Int) : Prop :=
  call m.kernel m.rs = some (m.rs.setStatus status, m.kernel)

/-- `m₁` made the start that matches an exit from `m`: its child is the
top process of `m`, and the parent has been suspended ever since. -/
def MatchingStart (ops : MemoryOps M) (progs : KprocProgTab) (m₀ : Machine M)
    (es : List ProcEvent) (m m₁ : Machine M) : Prop :=
  ∃ before after m₂, es = before ++ .start :: after ∧ Exec (Step ops progs) m₀ before m₁ ∧
    Step ops progs m₁ .start m₂ ∧ depth m₂ = depth m₁ + 1 ∧ depth m = depth m₁ + 1 ∧
    ExecBelow (Step ops progs) depth (depth m₁) m₂ after m

theorem Step.eq_start {m m' : Machine M} {e : ProcEvent} (hlive : m.kernel.Live)
    (h : Step ops progs m e m') (hdeeper : depth m < depth m') : e = .start := by
  unfold depth at hdeeper
  rcases h.cases hlive with ⟨hstack, -⟩ | ⟨he, -⟩ | ⟨-, hexited⟩
  · rw [hstack] at hdeeper
    exact absurd hdeeper (Nat.lt_irrefl _)
  · exact he
  · have := hexited.len
    omega

theorem MatchingStart.of_leftAt {m₀ m m₁ : Machine M} {es : List ProcEvent}
    (hlive : m₀.kernel.Live) (h : (nesting ops progs).LeftAt m₀ es m (depth m - 1) m₁)
    (hdeep : 1 ≤ depth m) : MatchingStart ops progs m₀ es m m₁ := by
  obtain ⟨⟨before, e, after, m₂, hes, hbefore, hpush, hdepth, hafter⟩, hm₁⟩ := h
  have hm₁' : depth m₁ = depth m - 1 := hm₁
  have hlive₁ : m₁.kernel.Live := hbefore.invariant (nesting ops progs).inv_step hlive
  have hdepth' : depth m₂ = depth m₁ + 1 := hm₁' ▸ hdepth
  obtain rfl := hpush.eq_start hlive₁ (hdepth' ▸ Nat.lt_succ_self _)
  exact ⟨before, after, m₂, hes, hbefore, hpush, hdepth', by omega, hm₁' ▸ hafter⟩

/-- Above the first process, there is such a start, and its parent's user state is the saved one. -/
theorem exists_matchingStart {m₀ m : Machine M} {es : List ProcEvent} (hlive : m₀.kernel.Live)
    (hone : m₀.kernel.stack.len = 1) (hrun : Exec (Step ops progs) m₀ es m)
    (hdeep : 2 ≤ m.kernel.stack.len) : ∃ m₁, MatchingStart ops progs m₀ es m m₁ ∧
      (m.kernel.stack.buffer (m.kernel.stack.len - 2)).suspend = m₁.userState := by
  have hinv : (nesting ops progs).Inv m₀ := hlive
  have hlow : (nesting ops progs).depth m₀ ≤ m.kernel.stack.len - 2 :=
    Nat.le_trans (Nat.sub_le_of_le_add hone.le) (Nat.zero_le _)
  obtain ⟨m₁, hleft, hsaved⟩ := (nesting ops progs).saved_eq hinv hrun hlow
    (Nat.sub_lt_sub_left hdeep (Nat.lt_succ_self 1))
  exact ⟨m₁, .of_leftAt hlive hleft (Nat.sub_le_sub_right hdeep 1), hsaved⟩

/-- The exit from `m` leads back into the user state of `m₁`, with status `OK`. -/
def ResumesAs (ops : MemoryOps M) (progs : KprocProgTab) (m m₁ : Machine M) : Prop :=
  ∃ m', Step ops progs m .exit m' ∧ m'.kernel.stack.len + 1 = m.kernel.stack.len ∧
    m'.userState = { m₁.userState with generalRegs := m₁.rs.setStatus Kstatus.procOk }

/-- Nested processes resume where they started their child. From the first
program on, in every state reached, one to `KPROC_MAX_COUNT` processes are live
and `TTBR0` is that of the top one; a start is refused on a full stack and
succeeds otherwise; the last process cannot exit, and the exit of any other leads
back to the state in which its parent made its matching start, since when the
parent has been suspended all along. -/
theorem nested_resume (ops : MemoryOps M) (progs : KprocProgTab) {k₀ : ProcKernel M}
    (hcap : k₀.stack.capacity = kprocMaxCount) (hempty : k₀.stack.len = 0)
    {prog : Nat} (hprog : prog < kprocProgCount) :
    ∃ k, k₀.kprocExec ops progs prog = some k ∧
      ∀ (rs : Frame) (es : List ProcEvent) (m : Machine M), Exec (Step ops progs) ⟨k, rs⟩ es m →
        m.kernel.Live ∧
        (m.rs.uint32 0 < kprocProgCount → m.kernel.stack.len = kprocMaxCount →
          Refuses (ProcKernel.kcallProcStart ops progs) m Kstatus.procStackFull) ∧
        (m.rs.uint32 0 < kprocProgCount → m.kernel.stack.len < kprocMaxCount →
          ∃ m', Step ops progs m .start m' ∧ m'.kernel.stack.len = m.kernel.stack.len + 1) ∧
        (m.kernel.stack.len = 1 → Refuses (ProcKernel.kcallProcExit ops) m Kstatus.procLast) ∧
        (2 ≤ m.kernel.stack.len →
          ∃ m₁, MatchingStart ops progs ⟨k, rs⟩ es m m₁ ∧ ResumesAs ops progs m m₁) := by
  obtain ⟨k, hexec, hlive₀, hone⟩ := ProcKernel.kprocExec_spec ops progs hcap hempty hprog
  refine ⟨k, hexec, fun rs es m hrun => ?_⟩
  have hlive : m.kernel.Live := hrun.invariant (nesting ops progs).inv_step hlive₀
  refine ⟨hlive, fun _ hfull => ProcKernel.kcallProcStart_of_full ops progs hlive hfull m.rs,
    fun hp hroom => ?_, fun hlast => ProcKernel.kcallProcExit_of_last ops hlast m.rs, fun hdeep => ?_⟩
  · obtain ⟨k', hcall, hstarted⟩ := ProcKernel.kcallProcStart_of_room ops progs hlive hroom hp
    exact ⟨_, .start hp hcall, hstarted.len⟩
  · obtain ⟨rs', k', hcall, hexited⟩ := ProcKernel.kcallProcExit_of_deep ops hlive hdeep m.rs
    obtain ⟨m₁, hmatching, hslot⟩ := exists_matchingStart hlive₀ hone hrun hdeep
    refine ⟨m₁, hmatching, ⟨k', rs'⟩, .exit hcall, hexited.len, ?_⟩
    exact hexited.restored.trans (by rw [hslot]; rfl)

/-- Memory that hands out one table and keeps no state. Programs have a block each. -/
def oneTable : MemoryOps Unit where
  createContext _ := (0x100000, ())
  destroyContext _ _ := ()
  mapRegion _ _ _ _ := ()
  load _ _ _ := 0
  store _ _ _ _ := ()
  reaches _ _ _ va := va < kprocRegion.size

def noText : KprocProgTab := fun _ => []

def noProcess : ProcKernel Unit :=
  { stack := ⟨fun _ => ⟨0, ⟨0, 0, fun _ => 0⟩⟩, kprocMaxCount, 0⟩
    memory := (), ttbr0 := 0, spEl0 := 0, elrEl1 := 0 }

theorem nested_resume_oneTable :
    ∃ k, noProcess.kprocExec oneTable noText 0 = some k ∧
      ∀ (rs : Frame) (es : List ProcEvent) (m : Machine Unit),
        Exec (Step oneTable noText) ⟨k, rs⟩ es m →
        m.kernel.Live ∧
        (m.rs.uint32 0 < kprocProgCount → m.kernel.stack.len = kprocMaxCount →
          Refuses (ProcKernel.kcallProcStart oneTable noText) m Kstatus.procStackFull) ∧
        (m.rs.uint32 0 < kprocProgCount → m.kernel.stack.len < kprocMaxCount →
          ∃ m', Step oneTable noText m .start m' ∧ m'.kernel.stack.len = m.kernel.stack.len + 1) ∧
        (m.kernel.stack.len = 1 → Refuses (ProcKernel.kcallProcExit oneTable) m Kstatus.procLast) ∧
        (2 ≤ m.kernel.stack.len →
          ∃ m₁, MatchingStart oneTable noText ⟨k, rs⟩ es m m₁ ∧ ResumesAs oneTable noText m m₁) :=
  nested_resume oneTable noText rfl rfl (by decide)

end Machine

end PiVOS
