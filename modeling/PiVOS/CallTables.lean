-- SUMMARY: Which kernel calls stay inside the kernel's tables.
import PiVOS.Dev.UartTimings
import PiVOS.Main

/-!
# Kernel calls and tables

The numbers a program passes index three tables: the calls, the devices and the
programs. The call number is checked with the wrong bound, device and program
numbers are not checked at all, and neither are pointers. So a call stays inside the
tables and returns just when these numbers happen to be those of existing entries and
the memory it comes to use is there.
-/

namespace PiVOS
namespace Kernel

variable {M : Type} (b : Board) (ops : MemoryOps M) (progs : KprocProgTab)

/-! ## Reachable kernels -/

/-- The kernels that programs can bring about: from the first program on, a
program changes its registers and its memory and makes kernel calls with any
registers, while the UART moves and interrupts. -/
inductive Reachable (kcalls : Kcalls (Kernel M)) : Kernel M → Prop
  | boot {proc₀ proc : ProcKernel M} {reg : Uart} (txBuf rxBuf : Nat → UInt8)
      (hcap : proc₀.stack.capacity = kprocMaxCount) (hempty : proc₀.stack.len = 0)
      (hexec : proc₀.kprocExec ops progs 0 = some proc) (hfifo : reg.txFifo.length ≤ b.depth)
      (hsent : reg.sent = []) (harrived : reg.arrived = []) :
    Reachable kcalls { proc, uart := DevUart.init reg txBuf rxBuf }
  | user {s : Kernel M} (h : Reachable kcalls s) (memory : M) (spEl0 elrEl1 : BitVec 64) :
    Reachable kcalls { s with proc := { s.proc with memory, spEl0, elrEl1 } }
  | hardware {s : Kernel M} (h : Reachable kcalls s) (m : UartMove) :
    Reachable kcalls { s with uart := { s.uart with reg := s.uart.reg.move b m } }
  | interrupt {s : Kernel M} (h : Reachable kcalls s) {mis : BitVec 32} {uart : DevUart}
      (hisr : s.uart.kdevIsr b mis = some uart) :
    Reachable kcalls { s with uart }
  | call {s : Kernel M} (h : Reachable kcalls s) {esr : Nat} {rs rs' : Frame} {s' : Kernel M}
      (hcall : kcallDispatch kcalls esr s rs = some (rs', s')) :
    Reachable kcalls s'

/-- What keeps the handlers from getting stuck by themselves. -/
structure Ready (s : Kernel M) : Prop where
  live : s.proc.Live
  uart : ∃ reg₀ accepted delivered, DevUart.Sound b reg₀ accepted delivered s.uart

/-! ## Handlers -/

section Handlers

variable {b} {s : Kernel M}

theorem Ready.settled (h : Ready b s) :
    ∃ reg₀ accepted delivered, DevUart.Settled b False reg₀ accepted delivered s.uart := by
  obtain ⟨reg₀, accepted, delivered, huart⟩ := h.uart
  exact ⟨reg₀, accepted, delivered, huart, fun hfalse => hfalse.elim⟩

/-- What is ready is so for every timing of the UART. -/
theorem Ready.timed (h : Ready b s) (moves : Nat → List UartMove) : Ready (b.timed moves) s := by
  obtain ⟨reg₀, accepted, delivered, huart⟩ := h.uart
  exact ⟨h.live, reg₀, accepted, delivered, huart.timed moves⟩

theorem Ready.write (h : Ready b s) {src n : Nat} {r : Int} {s' : Kernel M}
    (hwrite : (devUart b ops).write s src n = some (r, s')) : Ready b s' := by
  obtain ⟨reg₀, accepted, delivered, huart⟩ := h.settled
  obtain ⟨r', uart, hrun, -, -, hend⟩ := DevUart.kdevWrite_total huart (s.userBytes ops src) n
  simp only [devUart, hrun, Option.bind_some] at hwrite
  split_ifs at hwrite
  obtain ⟨-, rfl⟩ := Prod.mk.inj (Option.some.inj hwrite)
  exact ⟨h.live, _, _, _, hend.toSound⟩

theorem Ready.read (h : Ready b s) {dst n : Nat} {r : Int} {s' : Kernel M}
    (hread : (devUart b ops).read s dst n = some (r, s')) : Ready b s' := by
  obtain ⟨reg₀, accepted, delivered, huart⟩ := h.settled
  obtain ⟨r', bytes, uart, hrun, -, -, hend⟩ := DevUart.kdevRead_total huart (s.userBytes ops dst) n
  simp only [devUart, hrun, Option.bind_some] at hread
  obtain ⟨memory, -, heq⟩ := Option.map_eq_some_iff.mp hread
  obtain ⟨-, rfl⟩ := Prod.mk.inj heq
  exact ⟨⟨h.live.capacity, h.live.pos, h.live.le, h.live.ttbr0⟩, _, _, _, hend.toSound⟩

theorem Ready.poolOut (h : Ready b s) {c : UInt8} {r : Int} {s' : Kernel M}
    (hpool : (devUart b ops).poolOut s c = some (r, s')) : Ready b s' := by
  obtain ⟨reg₀, accepted, delivered, huart⟩ := h.uart
  obtain ⟨accepted', hend⟩ := DevUart.kdevPoolOut_sound huart c
  obtain ⟨-, rfl⟩ := Prod.mk.inj (Option.some.inj hpool)
  exact ⟨h.live, reg₀, accepted', delivered, hend⟩

theorem Ready.procExit (h : Ready b s) (rs : Frame) :
    ∃ rs' s', kcallProcExit ops s rs = some (rs', s') ∧ Ready b s' := by
  rcases Nat.lt_or_ge s.proc.stack.len 2 with hone | hdeep
  · have hrun := ProcKernel.kcallProcExit_of_last ops
      (le_antisymm (Nat.le_of_lt_succ hone) h.live.pos) rs
    exact ⟨_, s, by rw [kcallProcExit, hrun]; rfl, h⟩
  · obtain ⟨rs', proc, hrun, hexited⟩ := ProcKernel.kcallProcExit_of_deep ops h.live hdeep rs
    exact ⟨rs', { s with proc }, by rw [kcallProcExit, hrun]; rfl, hexited.live, h.uart⟩

theorem Ready.procStart (h : Ready b s) {rs : Frame}
    (hprog : rs.uint32 0 < kprocProgCount ∨ s.proc.stack.full = true) :
    ∃ rs' s', kcallProcStart ops progs s rs = some (rs', s') ∧ Ready b s' := by
  by_cases hfull : s.proc.stack.full = true
  · have hrun := ProcKernel.kcallProcStart_of_stack_full ops progs hfull rs
    exact ⟨_, s, by rw [kcallProcStart, hrun]; rfl, h⟩
  · have hroom : s.proc.stack.len < kprocMaxCount := Nat.lt_of_le_of_ne h.live.le fun heq =>
      hfull (Stack.full_iff.mpr (heq.trans h.live.capacity.symm))
    obtain ⟨proc, hrun, hstarted⟩ :=
      ProcKernel.kcallProcStart_of_room ops progs h.live hroom (hprog.resolve_right hfull)
    exact ⟨_, { s with proc }, by rw [kcallProcStart, hrun]; rfl, hstarted.live, h.uart⟩

theorem procStart_of_unknown {rs : Frame} (hprog : ¬rs.uint32 0 < kprocProgCount)
    (hroom : ¬s.proc.stack.full = true) : kcallProcStart ops progs s rs = none := by
  rw [kcallProcStart, ProcKernel.kcallProcStart_of_unknown ops progs hroom hprog]
  rfl

/-- A start is refused or leaves a process more, and both keep the kernel ready. -/
theorem Ready.procStart_ready (h : Ready b s) {rs rs' : Frame} {s' : Kernel M}
    (hstart : kcallProcStart ops progs s rs = some (rs', s')) : Ready b s' := by
  by_cases hprog : rs.uint32 0 < kprocProgCount ∨ s.proc.stack.full = true
  · obtain ⟨rs'', s'', hrun, hs''⟩ := h.procStart ops progs hprog
    obtain ⟨-, rfl⟩ := Prod.mk.inj (Option.some.inj (hstart.symm.trans hrun))
    exact hs''
  · rw [not_or] at hprog
    rw [procStart_of_unknown ops progs hprog.1 hprog.2] at hstart
    cases hstart

end Handlers

/-! ## Pointers -/

/-- The memory a device call can come to use is there: of a write the first byte, and the
others too unless it finds the ring full; of a read whatever it can give, which begins with the
bytes that have been received. -/
structure PointersReach (s : Kernel M) (esr : Nat) (rs : Frame) : Prop where
  write : callIdOf esr = 2 → rs.int32 0 = 2 → ∀ i < rs.uint32 2,
    i = 0 ∨ s.uart.tx.size ≠ s.uart.tx.capacity →
      ops.reaches s.proc.memory s.proc.ttbr0 .load (u64 ((rs 1).toNat + i)) = true
  read : callIdOf esr = 3 → rs.int32 0 = 2 → ∀ bytes : List UInt8, bytes.length = rs.uint32 2 →
    s.uart.present.take bytes.length <+: bytes →
      (ops.copyOut s.proc.ttbr0 (rs 1).toNat bytes s.proc.memory).isSome = true

section Pointers

variable {b} {s : Kernel M} {src dst n : Nat}

theorem loadsReach_iff : s.loadsReach ops src n = true ↔
    ∀ i < n, ops.reaches s.proc.memory s.proc.ttbr0 .load (u64 (src + i)) = true := by
  rw [loadsReach, List.all_eq_true]
  simp only [List.mem_range]

theorem Ready.write_total (h : Ready b s)
    (hreach : ∀ i < n, i = 0 ∨ s.uart.tx.size ≠ s.uart.tx.capacity →
      ops.reaches s.proc.memory s.proc.ttbr0 .load (u64 (src + i)) = true) :
    ∃ result, (devUart b ops).write s src n = some result := by
  obtain ⟨r, uart, hrun, hzero⟩ : ∃ r uart, s.uart.kdevWrite b (s.userBytes ops src) n = some (r, uart) ∧
      (s.uart.tx.size = s.uart.tx.capacity → r = 0) := by
    by_cases hfull : s.uart.tx.size = s.uart.tx.capacity
    · exact ⟨0, s.uart, DevUart.kdevWrite_of_full hfull _ n, fun _ => rfl⟩
    · obtain ⟨reg₀, accepted, delivered, huart⟩ := h.settled
      obtain ⟨r, uart, hrun, -⟩ := DevUart.kdevWrite_total huart (s.userBytes ops src) n
      exact ⟨r, uart, hrun, fun hfull' => absurd hfull' hfull⟩
  have hloads : s.loadsReach ops src (min n (r.toNat + 1)) = true := by
    refine (loadsReach_iff ops).mpr fun i hi => hreach i (by omega) ?_
    by_cases hfull : s.uart.tx.size = s.uart.tx.capacity
    · rw [hzero hfull, Int.toNat_zero] at hi
      exact .inl (by omega)
    · exact .inr hfull
  simp only [devUart, hrun, Option.bind_some, if_pos hloads]
  exact ⟨_, rfl⟩

/-- A write that returns whatever the UART does can use all that it may come to use. -/
theorem Ready.write_reaches (h : Ready b s)
    (htotal : ∀ moves, ∃ result, (devUart (b.timed moves) ops).write s src n = some result) {i : Nat}
    (hi : i < n) (hmay : i = 0 ∨ s.uart.tx.size ≠ s.uart.tx.capacity) :
    ops.reaches s.proc.memory s.proc.ttbr0 .load (u64 (src + i)) = true := by
  have hloads : ∀ {moves r uart}, s.uart.kdevWrite (b.timed moves) (s.userBytes ops src) n = some (r, uart) →
      i ≤ r.toNat → ops.reaches s.proc.memory s.proc.ttbr0 .load (u64 (src + i)) = true := by
    intro moves r uart hrun hle
    obtain ⟨result, hwrite⟩ := htotal moves
    simp only [devUart, hrun, Option.bind_some] at hwrite
    split_ifs at hwrite with hloads
    exact (loadsReach_iff ops).mp hloads i (by omega)
  rcases hmay with rfl | hroom
  · obtain ⟨reg₀, accepted, delivered, huart⟩ := (h.timed b.moves).settled
    obtain ⟨r, uart, hrun, -⟩ := DevUart.kdevWrite_total huart (s.userBytes ops src) n
    exact hloads hrun (Nat.zero_le _)
  · obtain ⟨reg₀, accepted, delivered, huart⟩ := h.uart
    obtain ⟨uart, hrun⟩ := DevUart.kdevWrite_eager huart hroom (s.userBytes ops src) n
    exact hloads hrun hi.le

theorem Ready.read_total (h : Ready b s) (hreach : ∀ bytes : List UInt8, bytes.length = n →
    s.uart.present.take bytes.length <+: bytes →
      (ops.copyOut s.proc.ttbr0 dst bytes s.proc.memory).isSome = true) :
    ∃ result, (devUart b ops).read s dst n = some result := by
  obtain ⟨reg₀, accepted, delivered, huart⟩ := h.uart
  obtain ⟨r, bytes, uart, hrun, hle, hfirst⟩ :=
    DevUart.kdevRead_gives (b := b) huart.rxRing (s.userBytes ops dst) n
  -- any bytes may follow those that the read gives
  have hlen : ((List.range r).map bytes ++ List.replicate (n - r) 0).length = n := by
    rw [List.length_append, List.length_map, List.length_range, List.length_replicate]
    omega
  have hcopy := hreach _ hlen (hlen.symm ▸ hfirst.trans (List.prefix_append _ _))
  obtain ⟨memory, hmemory⟩ := Option.isSome_iff_exists.mp
    (MemoryOps.copyOut_of_prefix (List.prefix_append _ _) hcopy)
  simp only [devUart, hrun, Option.bind_some, Int.toNat_natCast, hmemory, Option.map_some]
  exact ⟨_, rfl⟩

theorem Ready.read_reaches (h : Ready b s)
    (htotal : ∀ moves, ∃ result, (devUart (b.timed moves) ops).read s dst n = some result) {bytes : List UInt8}
    (hlen : bytes.length = n) (hfirst : s.uart.present.take bytes.length <+: bytes) :
    (ops.copyOut s.proc.ttbr0 dst bytes s.proc.memory).isSome = true := by
  obtain ⟨reg₀, accepted, delivered, huart⟩ := h.uart
  obtain ⟨moves, given, uart, hrun, hgiven⟩ := DevUart.kdevRead_feeding huart (s.userBytes ops dst) hfirst
  obtain ⟨result, hread⟩ := htotal moves
  subst hlen
  simp only [devUart, hrun, Option.bind_some, Int.toNat_natCast, hgiven] at hread
  obtain ⟨memory, hmemory, -⟩ := Option.map_eq_some_iff.mp hread
  rw [hmemory, Option.isSome_some]

end Pointers

/-! ## Device calls -/

section Devices

variable {b} {s : Kernel M} {kdevs : Kdevs (Kernel M)} (hdevs : kdevs.Lists (devices b ops))
  (call : KdevIo (Kernel M) → Option (Int × Kernel M))

include hdevs

theorem kdevIo_of_notIo {devId : Int} (hid : 0 ≤ devId ∧ devId < 2) :
    kdevIo kdevs devId s call = some (Kstatus.devInvalid, s) := by
  obtain rfl | rfl : devId = 0 ∨ devId = 1 := by omega
  · exact kdevIo_of_other (hdevs.bound (i := 0) rfl) (fun dev h => by cases h) s call
  · exact kdevIo_of_other (hdevs.bound (i := 1) rfl) (fun dev h => by cases h) s call

theorem kdevIo_of_uart : kdevIo kdevs 2 s call = call (devUart b ops) :=
  kdevIo_of_io (hdevs.bound (i := 2) rfl) s call

theorem kdevIo_of_unknown {devId : Int} (hid : ¬(0 ≤ devId ∧ devId < 3)) :
    kdevIo kdevs devId s call = none :=
  kdevIo_of_unbound (hdevs.not_bound hid) s call

theorem kdevIo_total {devId : Int} (hid : 0 ≤ devId ∧ devId < 3)
    (hcall : devId = 2 → ∃ result, call (devUart b ops) = some result) :
    ∃ result, kdevIo kdevs devId s call = some result := by
  rcases lt_or_ge devId 2 with hlt | hge
  · exact ⟨_, kdevIo_of_notIo ops hdevs call ⟨hid.1, hlt⟩⟩
  · obtain rfl : devId = 2 := by omega
    rw [kdevIo_of_uart ops hdevs call]
    exact hcall rfl

/-- A device call changes nothing, or does what the function of the UART does. -/
theorem kdevIo_cases {devId : Int} {r : Int} {s' : Kernel M} (h : kdevIo kdevs devId s call = some (r, s')) :
    s' = s ∨ call (devUart b ops) = some (r, s') := by
  by_cases hid : 0 ≤ devId ∧ devId < 3
  · rcases lt_or_ge devId 2 with hlt | hge
    · rw [kdevIo_of_notIo ops hdevs call ⟨hid.1, hlt⟩] at h
      exact .inl (Prod.mk.inj (Option.some.inj h)).2.symm
    · obtain rfl : devId = 2 := by omega
      rw [kdevIo_of_uart ops hdevs call] at h
      exact .inr h
  · rw [kdevIo_of_unknown ops hdevs call hid] at h
    cases h

theorem io_bound_iff {devId : Int} : (∃ dev, kdevs.Bound devId (.io dev)) ↔ devId = 2 := by
  constructor
  · rintro ⟨dev, hbound⟩
    by_cases hid : 0 ≤ devId ∧ devId < 3
    · obtain rfl | rfl | rfl : devId = 0 ∨ devId = 1 ∨ devId = 2 := by omega
      · exact absurd (hbound.symm.trans (hdevs.bound (i := 0) rfl)) (by simp)
      · exact absurd (hbound.symm.trans (hdevs.bound (i := 1) rfl)) (by simp)
      · rfl
    · exact absurd hbound (hdevs.not_bound hid _)
  · rintro rfl
    exact ⟨_, hdevs.bound (i := 2) rfl⟩

end Devices

/-- Of the processes, `s'` differs from `s` only in bytes copied to the memory of the caller. -/
def CopiesOnly (s s' : Kernel M) : Prop :=
  ∃ (va : Nat) (bytes : List UInt8),
    s'.proc = { s.proc with memory := ops.bytecpy s.proc.ttbr0 va bytes s.proc.memory }

theorem CopiesOnly.of_proc {s s' : Kernel M} (h : s'.proc = s.proc) : CopiesOnly ops s s' :=
  ⟨0, [], by rw [h]; rfl⟩

section CopiesOnly

variable {b} {s s' : Kernel M} {r : Int}

theorem devUart_write {src n : Nat} (h : (devUart b ops).write s src n = some (r, s')) :
    ∃ uart, s.uart.kdevWrite b (s.userBytes ops src) n = some (r, uart) ∧ s' = { s with uart } := by
  obtain ⟨⟨r', uart⟩, hrun, h⟩ := Option.bind_eq_some_iff.mp h
  simp only at h
  split_ifs at h
  obtain ⟨rfl, rfl⟩ := Prod.mk.inj (Option.some.inj h)
  exact ⟨uart, hrun, rfl⟩

theorem devUart_read {dst n : Nat} (h : (devUart b ops).read s dst n = some (r, s')) :
    ∃ bytes uart, s.uart.kdevRead b (s.userBytes ops dst) n = some (r, bytes, uart) ∧
      s' = { proc := { s.proc with
               memory := ops.bytecpy s.proc.ttbr0 dst ((List.range r.toNat).map bytes) s.proc.memory }
             uart } := by
  obtain ⟨⟨r', bytes, uart⟩, hrun, h⟩ := Option.bind_eq_some_iff.mp h
  obtain ⟨memory, hcopy, heq⟩ := Option.map_eq_some_iff.mp h
  obtain ⟨rfl, rfl⟩ := Prod.mk.inj heq
  exact ⟨bytes, uart, hrun, by rw [MemoryOps.bytecpy_of_copyOut hcopy]⟩

theorem copiesOnly_write {src n : Nat} (h : (devUart b ops).write s src n = some (r, s')) :
    CopiesOnly ops s s' := by
  obtain ⟨uart, -, rfl⟩ := devUart_write ops h
  exact .of_proc ops rfl

theorem copiesOnly_read {dst n : Nat} (h : (devUart b ops).read s dst n = some (r, s')) :
    CopiesOnly ops s s' := by
  obtain ⟨bytes, uart, -, rfl⟩ := devUart_read ops h
  exact ⟨_, _, rfl⟩

theorem copiesOnly_poolOut {c : UInt8} (h : (devUart b ops).poolOut s c = some (r, s')) :
    CopiesOnly ops s s' := by
  obtain ⟨-, rfl⟩ := Prod.mk.inj (Option.some.inj h)
  exact .of_proc ops rfl

end CopiesOnly

theorem calls_procExit (kdevs : Kdevs (Kernel M)) {callId : Nat} (h : callId = 0) :
    (calls ops progs kdevs)[callId]? = some (kcallProcExit ops) := by
  subst h
  rfl

theorem calls_procStart (kdevs : Kdevs (Kernel M)) {callId : Nat} (h : callId = 1) :
    (calls ops progs kdevs)[callId]? = some (kcallProcStart ops progs) := by
  subst h
  rfl

/-- What a device call does with the UART. -/
structure UartCall (esr : Nat) (call : Kernel M → Frame → KdevIo (Kernel M) → Option (Int × Kernel M)) :
    Prop where
  total : ∀ {s rs}, Ready b s → rs.int32 0 = 2 → PointersReach ops s esr rs →
    ∃ result, call s rs (devUart b ops) = some result
  ready : ∀ {s rs r s'}, Ready b s → call s rs (devUart b ops) = some (r, s') → Ready b s'
  copies : ∀ {s rs r s'}, call s rs (devUart b ops) = some (r, s') → CopiesOnly ops s s'

/-- The three device calls are one: what differs is the function of the device. -/
theorem calls_io (kdevs : Kdevs (Kernel M)) {esr : Nat} (h : 2 ≤ callIdOf esr ∧ callIdOf esr < 5) :
    ∃ (handler : KcallFn (Kernel M))
      (call : Kernel M → Frame → KdevIo (Kernel M) → Option (Int × Kernel M)),
      (calls ops progs kdevs)[callIdOf esr]? = some handler ∧
      (∀ s rs, handler s rs = (kdevIo kdevs (rs.int32 0) s (call s rs)).map
        fun (status, s) => (rs.setStatus status, s)) ∧ UartCall b ops esr call := by
  obtain hid | hid | hid : callIdOf esr = 2 ∨ callIdOf esr = 3 ∨ callIdOf esr = 4 := by omega
  · exact ⟨kcallIoWrite kdevs, fun s rs dev => dev.write s (rs 1).toNat (rs.uint32 2), by rw [hid]; rfl,
      fun _ _ => rfl, fun hs hdev h => hs.write_total ops (h.write hid hdev), fun hs => hs.write ops,
      copiesOnly_write ops⟩
  · exact ⟨kcallIoRead kdevs, fun s rs dev => dev.read s (rs 1).toNat (rs.uint32 2), by rw [hid]; rfl,
      fun _ _ => rfl, fun hs hdev h => hs.read_total ops (h.read hid hdev), fun hs => hs.read ops,
      copiesOnly_read ops⟩
  · exact ⟨kcallIoPollOut kdevs, fun s rs dev => dev.poolOut s (UInt8.ofNat (rs 1).toNat), by rw [hid]; rfl,
      fun _ _ => rfl, fun _ _ _ => ⟨_, rfl⟩, fun hs => hs.poolOut ops, copiesOnly_poolOut ops⟩

/-! ## Reachable kernels are ready -/

section Runs

variable {b ops progs} {kdevs : Kdevs (Kernel M)} {kcalls : Kcalls (Kernel M)}
  (hdevs : kdevs.Lists (devices b ops)) (hcalls : kcalls.Lists (calls ops progs kdevs))

/-- The numbers a call uses are those of existing entries. A call number without
a handler uses none, unless it is the size of the table, nor does a start on a full stack. -/
def InTables (s : Kernel M) (esr : Nat) (rs : Frame) : Prop :=
  callIdOf esr ≠ kcallBufferSize ∧
    (callIdOf esr = 1 → rs.uint32 0 < kprocProgCount ∨ s.proc.stack.full = true) ∧
    (2 ≤ callIdOf esr ∧ callIdOf esr < 5 → 0 ≤ rs.int32 0 ∧ rs.int32 0 < 3)

instance (s : Kernel M) (esr : Nat) (rs : Frame) : Decidable (InTables s esr rs) :=
  inferInstanceAs (Decidable (_ ∧ _))

include hcalls

theorem kcallDispatch_of_unknown {esr : Nat} (h : 5 ≤ callIdOf esr)
    (hne : callIdOf esr ≠ kcallBufferSize) (s : Kernel M) (rs : Frame) :
    kcallDispatch kcalls esr s rs = some (rs.setStatus (-1), s) := by
  have hlen : (calls ops progs kdevs).length = 5 := rfl
  exact kcallDispatch_of_unbound (hcalls.not_bound (by omega)) hne s rs

theorem kcallDispatch_of_io {esr : Nat} (h : 2 ≤ callIdOf esr ∧ callIdOf esr < 5) :
    ∃ call : Kernel M → Frame → KdevIo (Kernel M) → Option (Int × Kernel M),
      (∀ s rs, kcallDispatch kcalls esr s rs = (kdevIo kdevs (rs.int32 0) s (call s rs)).map
        fun (status, s) => (rs.setStatus status, s)) ∧ UartCall b ops esr call := by
  obtain ⟨handler, call, hget, heq, hcall⟩ := calls_io b ops progs kdevs h
  exact ⟨call, fun s rs => by rw [kcallDispatch_of_bound (hcalls.bound hget), heq], hcall⟩

include hdevs

/-- A call that uses existing entries, and memory that is there, completes. -/
theorem kcallDispatch_total {esr : Nat} {s : Kernel M} {rs : Frame} (hs : Ready b s)
    (h : InTables s esr rs) (hreach : PointersReach ops s esr rs) :
    ∃ result, kcallDispatch kcalls esr s rs = some result := by
  obtain ⟨hsize, hprog, hdev⟩ := h
  rcases Nat.lt_or_ge (callIdOf esr) 5 with hlt | hge
  · rcases Nat.lt_or_ge (callIdOf esr) 2 with hproc | hio
    · obtain hid | hid : callIdOf esr = 0 ∨ callIdOf esr = 1 := by omega
      · rw [kcallDispatch_of_bound (hcalls.bound (calls_procExit ops progs kdevs hid))]
        obtain ⟨rs', s', hrun, -⟩ := hs.procExit ops rs
        exact ⟨_, hrun⟩
      · rw [kcallDispatch_of_bound (hcalls.bound (calls_procStart ops progs kdevs hid))]
        obtain ⟨rs', s', hrun, -⟩ := hs.procStart ops progs (hprog hid)
        exact ⟨_, hrun⟩
    · obtain ⟨call, heq, hcall⟩ := kcallDispatch_of_io hcalls ⟨hio, hlt⟩
      obtain ⟨⟨r, s'⟩, hrun⟩ := kdevIo_total ops hdevs (s := s) (call s rs) (hdev ⟨hio, hlt⟩)
        fun huart => hcall.total hs huart hreach
      exact ⟨_, by rw [heq, hrun]; rfl⟩
  · exact ⟨_, kcallDispatch_of_unknown hcalls hge hsize s rs⟩

/-- A call that completes keeps the kernel ready. -/
theorem kcallDispatch_ready {esr : Nat} {s s' : Kernel M} {rs rs' : Frame} (hs : Ready b s)
    (h : kcallDispatch kcalls esr s rs = some (rs', s')) : Ready b s' := by
  by_cases hsize : callIdOf esr = kcallBufferSize
  · rw [kcallDispatch_of_size hsize] at h
    cases h
  rcases Nat.lt_or_ge (callIdOf esr) 5 with hlt | hge
  · obtain hid | hid | hio : callIdOf esr = 0 ∨ callIdOf esr = 1 ∨ 2 ≤ callIdOf esr := by omega
    · rw [kcallDispatch_of_bound (hcalls.bound (calls_procExit ops progs kdevs hid))] at h
      obtain ⟨rs'', s'', hrun, hs''⟩ := hs.procExit ops rs
      obtain ⟨-, rfl⟩ := Prod.mk.inj (Option.some.inj (h.symm.trans hrun))
      exact hs''
    · rw [kcallDispatch_of_bound (hcalls.bound (calls_procStart ops progs kdevs hid))] at h
      exact hs.procStart_ready ops progs h
    · obtain ⟨call, heq, hcall⟩ := kcallDispatch_of_io (b := b) hcalls ⟨hio, hlt⟩
      rw [heq] at h
      obtain ⟨⟨r, s₁⟩, hrun, hresult⟩ := Option.map_eq_some_iff.mp h
      obtain ⟨-, rfl⟩ := Prod.mk.inj hresult
      rcases kdevIo_cases ops hdevs _ hrun with rfl | huart
      · exact hs
      · exact hcall.ready hs huart
  · rw [kcallDispatch_of_unknown hcalls hge hsize] at h
    obtain ⟨-, rfl⟩ := Prod.mk.inj (Option.some.inj h)
    exact hs

/-- A call that uses anything but existing entries is stray. -/
theorem kcallDispatch_stray {esr : Nat} {s : Kernel M} {rs : Frame} (h : ¬InTables s esr rs) :
    kcallDispatch kcalls esr s rs = none := by
  by_cases hsize : callIdOf esr = kcallBufferSize
  · exact kcallDispatch_of_size hsize s rs
  · by_cases hprog : callIdOf esr = 1 ∧ ¬(rs.uint32 0 < kprocProgCount ∨ s.proc.stack.full = true)
    · rw [kcallDispatch_of_bound (hcalls.bound (calls_procStart ops progs kdevs hprog.1))]
      obtain ⟨hunknown, hroom⟩ := not_or.mp hprog.2
      exact procStart_of_unknown ops progs hunknown hroom
    · have hdev : (2 ≤ callIdOf esr ∧ callIdOf esr < 5) ∧ ¬(0 ≤ rs.int32 0 ∧ rs.int32 0 < 3) := by
        by_contra hdev
        exact h ⟨hsize, fun hone => by_contra fun hp => hprog ⟨hone, hp⟩,
          fun hio => by_contra fun hd => hdev ⟨hio, hd⟩⟩
      obtain ⟨call, heq, -⟩ := kcallDispatch_of_io (b := b) hcalls hdev.1
      rw [heq, kdevIo_of_unknown ops hdevs (call s rs) hdev.2]
      rfl

theorem Reachable.ready {s : Kernel M} (h : Reachable b ops progs kcalls s) : Ready b s := by
  induction h with
  | @boot proc₀ proc reg txBuf rxBuf hcap hempty hexec hfifo hsent harrived =>
    obtain ⟨proc', hrun, hlive, -⟩ := ProcKernel.kprocExec_spec ops progs hcap hempty
      (show 0 < kprocProgCount by decide)
    obtain rfl : proc = proc' := Option.some.inj (hexec.symm.trans hrun)
    have huart := UartSession.start_settled hfifo hsent harrived txBuf rxBuf
    exact ⟨hlive, reg, [], [], huart.toSound⟩
  | user h memory spEl0 elrEl1 ih =>
    exact ⟨⟨ih.live.capacity, ih.live.pos, ih.live.le, ih.live.ttbr0⟩, ih.uart⟩
  | hardware h m ih =>
    obtain ⟨reg₀, accepted, delivered, huart⟩ := ih.uart
    exact ⟨ih.live, reg₀, accepted, delivered, huart.moves (.move _ m)⟩
  | interrupt h hisr ih =>
    obtain ⟨reg₀, accepted, delivered, huart⟩ := ih.settled
    obtain ⟨uart', hrun, hend⟩ := DevUart.kdevIsr_total huart _
    obtain rfl := Option.some.inj (hisr.symm.trans hrun)
    exact ⟨ih.live, reg₀, accepted, delivered, hend.toSound⟩
  | call h hcall ih => exact kcallDispatch_ready hdevs hcalls ih hcall

end Runs

/-! ## What a call may do -/

/-- The call is refused with a negative `x0`, and nothing else has changed. -/
def Refused (kcalls : Kcalls (Kernel M)) (esr : Nat) (s : Kernel M) (rs : Frame) : Prop :=
  ∃ status : Int, -2 ^ 31 ≤ status ∧ status < 0 ∧
    kcallDispatch kcalls esr s rs = some (rs.setStatus status, s)

/-- The call completes, and unknown calls, devices and programs are refused. -/
structure Contained (kdevs : Kdevs (Kernel M)) (kcalls : Kcalls (Kernel M)) (esr : Nat)
    (s : Kernel M) (rs : Frame) : Prop where
  completes : ∃ result, kcallDispatch kcalls esr s rs = some result
  unknownCall : (∀ call, ¬kcalls.Bound (callIdOf esr) call) → Refused kcalls esr s rs
  unknownDevice : 2 ≤ callIdOf esr ∧ callIdOf esr < 5 →
    (¬∃ dev, kdevs.Bound (rs.int32 0) (.io dev)) → Refused kcalls esr s rs
  unknownProgram : callIdOf esr = 1 → ¬rs.uint32 0 < kprocProgCount → Refused kcalls esr s rs

section Contained

variable {b ops progs} {kdevs : Kdevs (Kernel M)} {kcalls : Kcalls (Kernel M)} {s : Kernel M} {esr : Nat}
  {rs : Frame}

theorem contained_of_inTables (hdevs : kdevs.Lists (devices b ops))
    (hcalls : kcalls.Lists (calls ops progs kdevs)) (hs : Ready b s) (h : InTables s esr rs)
    (hreach : PointersReach ops s esr rs) : Contained kdevs kcalls esr s rs := by
  refine ⟨kcallDispatch_total hdevs hcalls hs h hreach, fun hunbound => ?_, fun hio hdev => ?_,
    fun hone hprog => ?_⟩
  · exact ⟨-1, by decide, by decide, kcallDispatch_of_unbound hunbound h.1 s rs⟩
  · rw [io_bound_iff ops hdevs] at hdev
    obtain ⟨call, heq, -⟩ := kcallDispatch_of_io (b := b) hcalls hio
    have hid := h.2.2 hio
    refine ⟨Kstatus.devInvalid, by decide, by decide, ?_⟩
    rw [heq, kdevIo_of_notIo ops hdevs (call s rs) ⟨hid.1, by omega⟩]
    rfl
  · have hfull := (h.2.1 hone).resolve_left hprog
    refine ⟨Kstatus.procStackFull, by decide, by decide, ?_⟩
    rw [kcallDispatch_of_bound (hcalls.bound (calls_procStart ops progs kdevs hone)), kcallProcStart,
      ProcKernel.kcallProcStart_of_stack_full ops progs hfull]
    rfl

/-- A call that completes whatever the UART does finds all the memory it may come to use. -/
theorem pointersReach_of_completes {kdevs : Board → Kdevs (Kernel M)} {kcalls : Board → Kcalls (Kernel M)}
    (hdevs : ∀ b, (kdevs b).Lists (devices b ops)) (hcalls : ∀ b, (kcalls b).Lists (calls ops progs (kdevs b)))
    (hs : Ready b s)
    (h : ∀ moves, ∃ result, kcallDispatch (kcalls (b.timed moves)) esr s rs = some result) :
    PointersReach ops s esr rs := by
  constructor
  · intro hid hdev i hi hmay
    refine hs.write_reaches ops (fun moves => ?_) hi hmay
    obtain ⟨result, hrun⟩ := h moves
    have hbound : (kcalls (b.timed moves)).Bound (callIdOf esr) (kcallIoWrite (kdevs (b.timed moves))) :=
      (hcalls _).bound (by rw [hid]; rfl)
    rw [kcallDispatch_of_bound hbound, kcallIoWrite, kdevIoWrite, hdev, kdevIo_of_uart ops (hdevs _)] at hrun
    obtain ⟨written, hwrite, -⟩ := Option.map_eq_some_iff.mp hrun
    exact ⟨written, hwrite⟩
  · intro hid hdev bytes hlen hfirst
    refine hs.read_reaches ops (fun moves => ?_) hlen hfirst
    obtain ⟨result, hrun⟩ := h moves
    have hbound : (kcalls (b.timed moves)).Bound (callIdOf esr) (kcallIoRead (kdevs (b.timed moves))) :=
      (hcalls _).bound (by rw [hid]; rfl)
    rw [kcallDispatch_of_bound hbound, kcallIoRead, kdevIoRead, hdev, kdevIo_of_uart ops (hdevs _)] at hrun
    obtain ⟨given, hread, -⟩ := Option.map_eq_some_iff.mp hrun
    exact ⟨given, hread⟩

end Contained

end Kernel
end PiVOS
