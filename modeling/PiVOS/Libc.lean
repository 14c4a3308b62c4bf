-- SUMMARY: The byte loops of `libc.c` and `utils.h`: when they end, and what they leave in memory.
import PiVOS.Lib.Loop
import PiVOS.Utils
import Mathlib.Logic.Function.Basic

/-!
# Bytes

The loops of `libc.c` count with 32 bits up to a size of 64, those of `utils.h` count with
64. They copy from the front, so a destination behind its source, but within it, is filled
with what lies between the two, over and over.
-/

namespace PiVOS

/-- What a loop over `num` bytes does to memory in so many rounds, with a counter of `width`
bits: a byte for each place from `ptr` on, which may depend on the memory so far. -/
def byteLoop (width ptr num : Nat) (byte : Nat → (Nat → UInt8) → UInt8) (rounds : Nat)
    (mem : Nat → UInt8) : Nat × (Nat → UInt8) :=
  forWidth width num (fun i mem => Function.update mem (u64 (ptr + i)) (byte i mem)) rounds mem

def memset (ptr : Nat) (value : Int) (num : Nat) : Nat → (Nat → UInt8) → Nat × (Nat → UInt8) :=
  byteLoop 32 ptr num fun _ _ => UInt8.ofInt value

def memcpy (destination source num : Nat) : Nat → (Nat → UInt8) → Nat × (Nat → UInt8) :=
  byteLoop 32 destination num fun i mem => mem (u64 (source + i))

def bytecpy (dst src n : Nat) : Nat → (Nat → UInt8) → Nat × (Nat → UInt8) :=
  byteLoop 64 dst n fun i mem => mem (u64 (src + i))

def byteset (dst value num : Nat) : Nat → (Nat → UInt8) → Nat × (Nat → UInt8) :=
  byteLoop 64 dst num fun _ _ => UInt8.ofNat value

/-! ## What they leave -/

section Loops

variable {width ptr num dst src n rounds : Nat} {byte : Nat → (Nat → UInt8) → UInt8} {mem : Nat → UInt8}

/-- A loop has ended after some number of rounds exactly if its counter can get to the bound. -/
theorem byteLoop_ended_iff :
    (∃ rounds, ¬(byteLoop width ptr num byte rounds mem).1 < num) ↔ num < 2 ^ width :=
  Loop.forWidth_ended_iff

/-- The rule for these loops, when they end: what is in memory before byte `i` leads to what is
there before byte `i + 1`. -/
theorem byteLoop_spec {I : Nat → (Nat → UInt8) → Prop} (hfits : ptr + num ≤ 2 ^ 64)
    (hbyte : ∀ i mem, i < num → I i mem → I (i + 1) (Function.update mem (ptr + i) (byte i mem)))
    (h : I 0 mem) (hended : ¬(byteLoop width ptr num byte rounds mem).1 < num) :
    I num (byteLoop width ptr num byte rounds mem).2 := by
  have hlt : num < 2 ^ width := byteLoop_ended_iff.mp ⟨rounds, hended⟩
  have hrounds : num ≤ rounds := by
    refine Nat.le_of_not_lt fun hfew => hended ?_
    rw [byteLoop, Loop.forWidth_of_le hlt (Nat.le_of_lt hfew)]
    exact hfew
  rw [byteLoop, Loop.forWidth_of_lt hlt hrounds]
  have hend := Loop.forRange_invariant (I := I) (n := num) (k := 0) (s := mem)
    (f := fun i mem => Function.update mem (u64 (ptr + i)) (byte i mem)) (fun i mem _ hi hI => ?_) h
  · rwa [Nat.zero_add] at hend
  · have hi' : i < num := by omega
    rw [u64_of_lt (show ptr + i < 2 ^ 64 by omega)]
    exact hbyte i mem hi' hI

/-- `num` bytes from `ptr` on are `c`. -/
def filled (ptr num : Nat) (c : UInt8) (mem : Nat → UInt8) (a : Nat) : UInt8 :=
  if ptr ≤ a ∧ a < ptr + num then c else mem a

/-- `n` bytes from `dst` on are those from `src` on; where the destination begins within the
source, those in front of it again and again. -/
def copied (dst src n : Nat) (mem : Nat → UInt8) (a : Nat) : UInt8 :=
  if dst ≤ a ∧ a < dst + n then
    if src < dst then mem (src + (a - dst) % (dst - src)) else mem (src + (a - dst))
  else mem a

theorem filled_succ (i : Nat) (c : UInt8) :
    Function.update (filled ptr i c mem) (ptr + i) c = filled ptr (i + 1) c mem := by
  funext a
  rw [Function.update_apply, filled, filled]
  by_cases ha : a = ptr + i
  · rw [if_pos ha, if_pos (by omega)]
  · rw [if_neg ha]
    exact if_congr (by omega) rfl rfl

/-- Byte `i` is read where it was before the first one was written, or where the copy has
put what belongs there. -/
theorem copied_succ (i : Nat) :
    Function.update (copied dst src i mem) (dst + i) (copied dst src i mem (src + i)) =
      copied dst src (i + 1) mem := by
  have hread : copied dst src i mem (src + i) =
      if src < dst then mem (src + i % (dst - src)) else mem (src + i) := by
    rw [copied]
    by_cases hbehind : src < dst
    · rw [if_pos hbehind, if_pos hbehind]
      by_cases hcopied : dst ≤ src + i
      · rw [if_pos ⟨hcopied, by omega⟩, show i = src + i - dst + (dst - src) by omega, Nat.add_mod_right]
        congr 3
        omega
      · rw [if_neg (by omega), Nat.mod_eq_of_lt (by omega)]
    · rw [if_neg (by omega), if_neg hbehind]
  funext a
  rw [Function.update_apply, hread, copied, copied]
  by_cases ha : a = dst + i
  · rw [if_pos ha, if_pos (show dst ≤ a ∧ a < dst + (i + 1) by omega), ha, Nat.add_sub_cancel_left]
  · rw [if_neg ha]
    exact if_congr (by omega) rfl rfl

theorem byteLoop_filled (hfits : ptr + num ≤ 2 ^ 64) (c : UInt8)
    (hended : ¬(byteLoop width ptr num (fun _ _ => c) rounds mem).1 < num) :
    (byteLoop width ptr num (fun _ _ => c) rounds mem).2 = filled ptr num c mem := by
  refine byteLoop_spec (I := fun i mem' => mem' = filled ptr i c mem) hfits (fun i mem' _ h => ?_) ?_ hended
  · rw [h, filled_succ]
  · funext a
    exact (if_neg (by omega)).symm

theorem byteLoop_copied (hdst : dst + n ≤ 2 ^ 64) (hsrc : src + n ≤ 2 ^ 64)
    (hended : ¬(byteLoop width dst n (fun i mem => mem (u64 (src + i))) rounds mem).1 < n) :
    (byteLoop width dst n (fun i mem => mem (u64 (src + i))) rounds mem).2 = copied dst src n mem := by
  refine byteLoop_spec (I := fun i mem' => mem' = copied dst src i mem) hdst (fun i mem' hi h => ?_) ?_ hended
  · rw [u64_of_lt (show src + i < 2 ^ 64 by omega), h, copied_succ]
  · funext a
    exact (if_neg (by omega)).symm

end Loops

/-! ## The functions -/

/-- A loop ends just for sizes its counter can hold, and then leaves `mem'`. -/
structure Leaves (width num : Nat) (run : Nat → Nat × (Nat → UInt8)) (mem' : Nat → UInt8) : Prop where
  ends : (∃ rounds, ¬(run rounds).1 < num) ↔ num < 2 ^ width
  leaves : ∀ rounds, ¬(run rounds).1 < num → (run rounds).2 = mem'

/-- For any places in memory, any size and any contents, and however source and destination
overlap: `memset` and `memcpy` end just for sizes below 4 GB, `byteset` and `bytecpy` for all;
and then they have set or copied all bytes, from the front, and changed nothing else. -/
theorem byteLoops_leave (ptr src n : Nat) (hdst : ptr + n ≤ 2 ^ 64) (hsrc : src + n ≤ 2 ^ 64)
    (value : Int) (c : Nat) (mem : Nat → UInt8) :
    Leaves 32 n (fun rounds => memset ptr value n rounds mem) (filled ptr n (UInt8.ofInt value) mem) ∧
    Leaves 32 n (fun rounds => memcpy ptr src n rounds mem) (copied ptr src n mem) ∧
    Leaves 64 n (fun rounds => byteset ptr c n rounds mem) (filled ptr n (UInt8.ofNat c) mem) ∧
    Leaves 64 n (fun rounds => bytecpy ptr src n rounds mem) (copied ptr src n mem) :=
  ⟨⟨byteLoop_ended_iff, fun _ hended => byteLoop_filled hdst _ hended⟩,
    ⟨byteLoop_ended_iff, fun _ hended => byteLoop_copied hdst hsrc hended⟩,
    ⟨byteLoop_ended_iff, fun _ hended => byteLoop_filled hdst _ hended⟩,
    ⟨byteLoop_ended_iff, fun _ hended => byteLoop_copied hdst hsrc hended⟩⟩

/-- A copy of five bytes to two bytes further on. -/
theorem byteLoops_leave_overlap :
    Leaves 32 5 (fun rounds => memset 0x1002 0 5 rounds fun a => UInt8.ofNat a)
      (filled 0x1002 5 (UInt8.ofInt 0) fun a => UInt8.ofNat a) ∧
    Leaves 32 5 (fun rounds => memcpy 0x1002 0x1000 5 rounds fun a => UInt8.ofNat a)
      (copied 0x1002 0x1000 5 fun a => UInt8.ofNat a) ∧
    Leaves 64 5 (fun rounds => byteset 0x1002 0 5 rounds fun a => UInt8.ofNat a)
      (filled 0x1002 5 (UInt8.ofNat 0) fun a => UInt8.ofNat a) ∧
    Leaves 64 5 (fun rounds => bytecpy 0x1002 0x1000 5 rounds fun a => UInt8.ofNat a)
      (copied 0x1002 0x1000 5 fun a => UInt8.ofNat a) :=
  byteLoops_leave 0x1002 0x1000 5 (by decide) (by decide) 0 0 fun a => UInt8.ofNat a

end PiVOS
