-- SUMMARY: The vector code of `int_table.S`: how registers become the frame of a handler and back.
import PiVOS.Int

/-!
# Traps

Every entry of the vector table stores the registers below the stack pointer, calls the
C function of its exception type with the address of what it stored, loads the registers
again and returns. The instructions of the two macros are interpreted one by one; of the C
code only the calling convention is assumed.
-/

namespace PiVOS

local instance generalRegs : NeZero 31 := ⟨by decide⟩

/-- The general registers, the stack pointer of the kernel and the memory its stack is in,
by double words. -/
structure Cpu where
  x : Fin 31 → BitVec 64
  sp : Nat
  mem : Nat → BitVec 64

/-- The instructions of the two macros; offsets are from `sp`. -/
inductive Insn
  | subSp (n : Nat)
  | addSp (n : Nat)
  | stp (a b : Fin 31) (offset : Nat)
  | str (a : Fin 31) (offset : Nat)
  | ldp (a b : Fin 31) (offset : Nat)
  | ldr (a : Fin 31) (offset : Nat)
  | movFromSp (a : Fin 31)
deriving DecidableEq

namespace Cpu

def storeWord (cpu : Cpu) (offset : Nat) (v : BitVec 64) : Cpu :=
  { cpu with mem := Function.update cpu.mem (u64 (cpu.sp + offset) / 8) v }

def loadWord (cpu : Cpu) (offset : Nat) (a : Fin 31) : Cpu :=
  { cpu with x := Function.update cpu.x a (cpu.mem (u64 (cpu.sp + offset) / 8)) }

def exec (cpu : Cpu) : Insn → Cpu
  | .subSp n => { cpu with sp := sub64 cpu.sp n }
  | .addSp n => { cpu with sp := u64 (cpu.sp + n) }
  | .stp a b offset => (cpu.storeWord offset (cpu.x a)).storeWord (offset + 8) (cpu.x b)
  | .str a offset => cpu.storeWord offset (cpu.x a)
  | .ldp a b offset => (cpu.loadWord offset a).loadWord (offset + 8) b
  | .ldr a offset => cpu.loadWord offset a
  | .movFromSp a => { cpu with x := Function.update cpu.x a (BitVec.ofNat 64 cpu.sp) }

def run (cpu : Cpu) (code : List Insn) : Cpu := code.foldl exec cpu

end Cpu

/-- `ISR_PROLOGUE`. -/
def isrPrologue : List Insn :=
  [.subSp (32 * 8),
    .stp 0 1 0, .stp 2 3 (16 * 1), .stp 4 5 (16 * 2), .stp 6 7 (16 * 3), .stp 8 9 (16 * 4),
    .stp 10 11 (16 * 5), .stp 12 13 (16 * 6), .stp 14 15 (16 * 7), .stp 16 17 (16 * 8),
    .stp 18 19 (16 * 9), .stp 20 21 (16 * 10), .stp 22 23 (16 * 11), .stp 24 25 (16 * 12),
    .stp 26 27 (16 * 13), .stp 28 29 (16 * 14), .str 30 (16 * 15)]

/-- `ISR_EPILOGUE`. -/
def isrEpilogue : List Insn :=
  [.ldp 0 1 0, .ldp 2 3 (16 * 1), .ldp 4 5 (16 * 2), .ldp 6 7 (16 * 3), .ldp 8 9 (16 * 4),
    .ldp 10 11 (16 * 5), .ldp 12 13 (16 * 6), .ldp 14 15 (16 * 7), .ldp 16 17 (16 * 8),
    .ldp 18 19 (16 * 9), .ldp 20 21 (16 * 10), .ldp 22 23 (16 * 11), .ldp 24 25 (16 * 12),
    .ldp 26 27 (16 * 13), .ldp 28 29 (16 * 14), .ldr 30 (16 * 15), .addSp (32 * 8)]

namespace Cpu

/-- The 32 double words from address `rs` on, as a handler finds them. -/
def frameAt (cpu : Cpu) (rs : Nat) : Frame := fun i => cpu.mem (rs / 8 + i)

/-- What a C function that was given the address `rs` of a frame, which is where the stack
pointer is, may have done when it returns, with `frame` in place of the old one: it has used
the stack below and any registers, and kept the stack pointer and what is above the frame. -/
structure Returns (cpu : Cpu) (rs : Nat) (frame : Frame) (cpu' : Cpu) : Prop where
  sp : cpu'.sp = cpu.sp
  frame : cpu'.frameAt rs = frame
  above : ∀ w, rs / 8 + 32 ≤ w → cpu'.mem w = cpu.mem w

/-- Room for a frame below a stack pointer that is aligned as it has to be. -/
structure StackReady (cpu : Cpu) : Prop where
  aligned : cpu.sp % 16 = 0
  room : 32 * 8 ≤ cpu.sp
  lt : cpu.sp < 2 ^ 64

/-- The registers, with whatever the last slot of the frame holds. -/
def regs (cpu : Cpu) : Frame := fun i =>
  if h : i.val < 31 then cpu.x ⟨i, h⟩ else cpu.mem (cpu.sp / 8 - 1)

end Cpu

/-! ## The macros -/

/-- Pairs of registers stored one after the other. -/
def saves (n : Nat) : List Insn :=
  (List.range n).map fun k => .stp (Fin.ofNat 31 (2 * k)) (Fin.ofNat 31 (2 * k + 1)) (16 * k)

def loads (n : Nat) : List Insn :=
  (List.range n).map fun k => .ldp (Fin.ofNat 31 (2 * k)) (Fin.ofNat 31 (2 * k + 1)) (16 * k)

theorem saves_succ (n : Nat) : saves (n + 1) =
    saves n ++ [.stp (Fin.ofNat 31 (2 * n)) (Fin.ofNat 31 (2 * n + 1)) (16 * n)] := by
  rw [saves, List.range_succ, List.map_append]
  rfl

theorem loads_succ (n : Nat) : loads (n + 1) =
    loads n ++ [.ldp (Fin.ofNat 31 (2 * n)) (Fin.ofNat 31 (2 * n + 1)) (16 * n)] := by
  rw [loads, List.range_succ, List.map_append]
  rfl

theorem isrPrologue_eq : isrPrologue = .subSp 256 :: (saves 15 ++ [.str 30 240]) := by decide

theorem isrEpilogue_eq : isrEpilogue = loads 15 ++ [.ldr 30 240, .addSp 256] := by decide

namespace Cpu

theorem run_append (cpu : Cpu) (code code' : List Insn) :
    cpu.run (code ++ code') = (cpu.run code).run code' := List.foldl_append ..

/-- A frame at the stack pointer does not wrap around. -/
structure Framed (cpu : Cpu) : Prop where
  aligned : cpu.sp % 16 = 0
  fits : cpu.sp + 256 < 2 ^ 64

theorem Framed.slot {cpu : Cpu} (h : cpu.Framed) {k : Nat} (hk : k < 32) :
    u64 (cpu.sp + 8 * k) / 8 = cpu.sp / 8 + k := by
  have haligned := h.aligned
  have hfits := h.fits
  rw [u64_of_lt (by omega)]
  omega

/-- `cpu'` has stored the first `n` registers at its stack pointer. -/
structure Saved (cpu : Cpu) (n : Nat) (cpu' : Cpu) : Prop where
  x : cpu'.x = cpu.x
  sp : cpu'.sp = cpu.sp
  mem : ∀ w, cpu'.mem w =
    if cpu.sp / 8 ≤ w ∧ w < cpu.sp / 8 + n then cpu.x (Fin.ofNat 31 (w - cpu.sp / 8)) else cpu.mem w

theorem Saved.next {cpu cpu' : Cpu} (h : cpu.Framed) {n : Nat} (hn : n < 31) (hs : Saved cpu n cpu') :
    Saved cpu (n + 1) (cpu'.storeWord (8 * n) (cpu'.x (Fin.ofNat 31 n))) := by
  refine ⟨hs.x, hs.sp, fun w => ?_⟩
  rw [storeWord, hs.sp, hs.x, h.slot (by omega)]
  simp only
  rw [Function.update_apply, hs.mem]
  by_cases hw : w = cpu.sp / 8 + n
  · rw [if_pos hw, if_pos (by omega), hw, Nat.add_sub_cancel_left]
  · rw [if_neg hw]
    exact if_congr (by omega) rfl rfl

theorem run_saves {cpu : Cpu} (h : cpu.Framed) {n : Nat} (hn : n ≤ 15) :
    Saved cpu (2 * n) (cpu.run (saves n)) := by
  induction n with
  | zero => exact ⟨rfl, rfl, fun w => (if_neg (by omega)).symm⟩
  | succ n ih =>
    have hpair := ((ih (by omega)).next h (by omega)).next h (by omega)
    have hoffset : 16 * n = 8 * (2 * n) := by omega
    rw [saves_succ, run_append, hoffset]
    exact hpair

/-- `cpu'` has loaded the first `n` registers from its stack pointer. -/
structure Loaded (cpu : Cpu) (n : Nat) (cpu' : Cpu) : Prop where
  mem : cpu'.mem = cpu.mem
  sp : cpu'.sp = cpu.sp
  x : ∀ i : Fin 31, cpu'.x i = if i.val < n then cpu.mem (cpu.sp / 8 + i) else cpu.x i

theorem Loaded.next {cpu cpu' : Cpu} (h : cpu.Framed) {n : Nat} (hn : n < 31) (hl : Loaded cpu n cpu') :
    Loaded cpu (n + 1) (cpu'.loadWord (8 * n) (Fin.ofNat 31 n)) := by
  have hval : (Fin.ofNat 31 n).val = n := Nat.mod_eq_of_lt hn
  refine ⟨hl.mem, hl.sp, fun i => ?_⟩
  rw [loadWord, hl.sp, hl.mem, h.slot (by omega)]
  simp only
  rw [Function.update_apply, hl.x]
  by_cases hi : i = Fin.ofNat 31 n
  · rw [if_pos hi, hi, hval, if_pos (Nat.lt_succ_self n)]
  · have hne : i.val ≠ n := fun heq => hi (Fin.ext (heq.trans hval.symm))
    rw [if_neg hi]
    exact if_congr (by omega) rfl rfl

theorem run_loads {cpu : Cpu} (h : cpu.Framed) {n : Nat} (hn : n ≤ 15) :
    Loaded cpu (2 * n) (cpu.run (loads n)) := by
  induction n with
  | zero => exact ⟨rfl, rfl, fun i => (if_neg (by omega)).symm⟩
  | succ n ih =>
    have hpair := ((ih (by omega)).next h (by omega)).next h (by omega)
    have hoffset : 16 * n = 8 * (2 * n) := by omega
    rw [loads_succ, run_append, hoffset]
    exact hpair

/-! ## The wrappers -/

theorem run_isrPrologue {cpu : Cpu} (h : cpu.StackReady) :
    Saved { cpu with sp := cpu.sp - 256 } 31 (cpu.run isrPrologue) := by
  obtain ⟨haligned, hroom, hlt⟩ := h
  obtain ⟨low, hlow⟩ : ∃ low : Cpu, low = { cpu with sp := cpu.sp - 256 } := ⟨_, rfl⟩
  have hsp : low.sp = cpu.sp - 256 := by rw [hlow]
  have hframed : low.Framed := ⟨by omega, by omega⟩
  have hfirst : cpu.exec (.subSp 256) = low := by
    rw [exec, sub64_of_le hroom, hlow]
  have hrun : cpu.run isrPrologue = (low.run (saves 15)).run [.str 30 240] := by
    rw [isrPrologue_eq, run, List.foldl_cons, hfirst]
    exact run_append low (saves 15) [.str 30 240]
  rw [hrun, ← hlow]
  exact (run_saves hframed (Nat.le_refl 15)).next hframed (by decide)

/-- What the C function finds: the frame below the old stack pointer, and its address in `x0`. -/
theorem run_to_handler {cpu cpu' : Cpu} (h : cpu.StackReady)
    (hrun : cpu' = cpu.run (isrPrologue ++ [.movFromSp 0])) :
    cpu'.sp = cpu.sp - 256 ∧ (cpu'.x 0).toNat = cpu.sp - 256 ∧ cpu'.frameAt (cpu.sp - 256) = cpu.regs ∧
      ∀ w, cpu.sp / 8 ≤ w → cpu'.mem w = cpu.mem w := by
  obtain ⟨haligned, hroom, hlt⟩ := h
  obtain ⟨saved, hsaved⟩ : ∃ saved, saved = cpu.run isrPrologue := ⟨_, rfl⟩
  obtain ⟨hx, hsp, hmem⟩ : Saved { cpu with sp := cpu.sp - 256 } 31 saved :=
    hsaved ▸ run_isrPrologue ⟨haligned, hroom, hlt⟩
  have hcpu' : cpu' = { saved with x := Function.update saved.x 0 (BitVec.ofNat 64 saved.sp) } := by
    rw [hrun, run_append, ← hsaved]
    rfl
  simp only at hx hsp hmem
  rw [hcpu']
  refine ⟨hsp, ?_, funext fun i => ?_, fun w hw => ?_⟩
  · simp only [Function.update_self]
    rw [hsp, BitVec.toNat_ofNat, Nat.mod_eq_of_lt (by omega)]
  · have hi := i.isLt
    refine (hmem _).trans ?_
    rw [regs]
    by_cases hlt31 : i.val < 31
    · rw [if_pos (by omega), dif_pos hlt31, Nat.add_sub_cancel_left]
      exact congrArg cpu.x (Fin.ext (Nat.mod_eq_of_lt hlt31))
    · rw [if_neg (by omega), dif_neg hlt31]
      exact congrArg cpu.mem (by omega)
  · exact (hmem w).trans (if_neg (by omega))

/-- What the program gets back. -/
theorem run_isrEpilogue {cpu : Cpu} (h : cpu.Framed) :
    (cpu.run isrEpilogue).sp = cpu.sp + 256 ∧ (cpu.run isrEpilogue).mem = cpu.mem ∧
      ∀ i : Fin 31, (cpu.run isrEpilogue).x i = cpu.frameAt cpu.sp i.castSucc := by
  obtain ⟨loaded, hloaded⟩ : ∃ loaded, loaded = (cpu.run (loads 15)).run [.ldr 30 240] := ⟨_, rfl⟩
  obtain ⟨hmem, hsp, hx⟩ : Loaded cpu 31 loaded :=
    hloaded ▸ (run_loads h (Nat.le_refl 15)).next h (by decide)
  have hrun : cpu.run isrEpilogue = { loaded with sp := u64 (loaded.sp + 256) } := by
    rw [isrEpilogue_eq, run_append, hloaded]
    rfl
  rw [hrun]
  refine ⟨?_, hmem, fun i => ?_⟩
  · simp only
    rw [hsp, u64_of_lt h.fits]
  · simp only
    rw [hx, if_pos i.isLt]
    rfl

end Cpu

/-! ## Exceptions -/

section Exceptions

variable {S : Type} {tab : IntDispatchTab S} {type : IntType} {esr : Nat} {cpu cpu' : Cpu} {s s' : S}

/-- `ISR name`, from the entry of the vector table to `eret`, with the C function that
`int_dispatch` calls for this exception type. -/
inductive Trap (tab : IntDispatchTab S) (type : IntType) (esr : Nat) : Cpu → S → Cpu → S → Prop
  | isr {cpu called returned : Cpu} {s s' : S} {frame : Frame}
      (hentry : called = cpu.run (isrPrologue ++ [.movFromSp 0]))
      (hcall : intDispatch tab type (called.frameAt (called.x 0).toNat) esr s = some (frame, s'))
      (hreturns : called.Returns (called.x 0).toNat frame returned) :
    Trap tab type esr cpu s (returned.run isrEpilogue) s'

/-- What a program and the kernel find after an exception: the registers and the spare slot
as the handler left them, the stack pointer and the stack above it as before. -/
structure Cpu.Resumed (cpu : Cpu) (frame : Frame) (cpu' : Cpu) : Prop where
  regs : cpu'.regs = frame
  sp : cpu'.sp = cpu.sp
  above : ∀ w, cpu.sp / 8 ≤ w → cpu'.mem w = cpu.mem w

theorem Cpu.resumed_of_returns {called returned : Cpu} {frame : Frame} (hready : cpu.StackReady)
    (hentry : called = cpu.run (isrPrologue ++ [.movFromSp 0]))
    (hreturns : called.Returns (cpu.sp - 256) frame returned) :
    cpu.Resumed frame (returned.run isrEpilogue) := by
  obtain ⟨hsp, -, -, habove⟩ := Cpu.run_to_handler hready hentry
  obtain ⟨haligned, hroom, hlt⟩ := hready
  have hat : returned.sp = cpu.sp - 256 := hreturns.sp.trans hsp
  have hframed : returned.Framed := ⟨by omega, by omega⟩
  obtain ⟨hsp', hmem', hx'⟩ := Cpu.run_isrEpilogue hframed
  have hback : (returned.run isrEpilogue).sp = cpu.sp := by omega
  have hslot : ∀ i : Fin 32, returned.mem ((cpu.sp - 256) / 8 + i) = frame i := fun i =>
    congrFun hreturns.frame i
  refine ⟨funext fun i => ?_, hback, fun w hw => ?_⟩
  · rw [Cpu.regs, hback, hmem']
    by_cases hlt31 : i.val < 31
    · rw [dif_pos hlt31, hx', Cpu.frameAt, hat]
      exact hslot i
    · have hi := i.isLt
      rw [dif_neg hlt31, ← hslot i]
      exact congrArg returned.mem (by omega)
  · rw [hmem', hreturns.above w (by omega), habove w hw]

/-- An exception is its handler, applied to the registers. -/
theorem Trap.refines (h : Trap tab type esr cpu s cpu' s') (hready : cpu.StackReady) :
    ∃ frame, intDispatch tab type cpu.regs esr s = some (frame, s') ∧ cpu.Resumed frame cpu' := by
  cases h with
  | isr hentry hcall hreturns =>
    obtain ⟨-, hptr, hframe, -⟩ := Cpu.run_to_handler hready hentry
    rw [hptr] at hcall hreturns
    rw [hframe] at hcall
    exact ⟨_, hcall, Cpu.resumed_of_returns hready hentry hreturns⟩

/-- Where the handler completes, so does the exception. -/
theorem Trap.of_dispatch (hready : cpu.StackReady) {frame : Frame}
    (hcall : intDispatch tab type cpu.regs esr s = some (frame, s')) :
    ∃ cpu', Trap tab type esr cpu s cpu' s' := by
  obtain ⟨called, hentry⟩ : ∃ called, called = cpu.run (isrPrologue ++ [.movFromSp 0]) := ⟨_, rfl⟩
  obtain ⟨-, hptr, hframe, -⟩ := Cpu.run_to_handler hready hentry
  let base := (cpu.sp - 256) / 8
  let returned : Cpu := { called with mem := fun w =>
    if h : base ≤ w ∧ w < base + 32 then frame ⟨w - base, by omega⟩ else called.mem w }
  have hreturns : called.Returns (cpu.sp - 256) frame returned := by
    refine ⟨rfl, funext fun i => ?_, fun w hw => dif_neg (by simp only [base]; omega)⟩
    have hi := i.isLt
    have hin : base ≤ base + i.val ∧ base + i.val < base + 32 := by omega
    refine (dif_pos hin).trans (congrArg frame (Fin.ext ?_))
    exact Nat.add_sub_cancel_left ..
  rw [← hframe] at hcall
  rw [← hptr] at hcall hreturns
  exact ⟨_, .isr hentry hcall hreturns⟩

end Exceptions

end PiVOS
