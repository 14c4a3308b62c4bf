-- SUMMARY: What a failed assertion of `assert.c` leaves for a debugger.
import PiVOS.Lib.Loop
import PiVOS.Utils
import Mathlib.Logic.Function.Basic

/-!
# Assertions

In debug builds a failed assertion puts its message at the far end of the kernel's stack,
behind its length, and waits for ever. The message is cut off at the size of the whole stack,
although four bytes of it are the length.
-/

namespace PiVOS

/-- A store of an `uint32_t`. -/
def storeUint32 (mem : Nat → UInt8) (addr v : Nat) : Nat → UInt8 := fun a =>
  if addr ≤ a ∧ a < addr + 4 then UInt8.ofNat (v / 2 ^ (8 * (a - addr)) % 2 ^ 8) else mem a

/-- A load of an `uint32_t`. -/
def loadUint32 (mem : Nat → UInt8) (addr : Nat) : Nat :=
  (mem addr).toNat + (mem (addr + 1)).toNat * 2 ^ 8 + (mem (addr + 2)).toNat * 2 ^ 16 +
    (mem (addr + 3)).toNat * 2 ^ 24

/-- `message[i] != '\0' && i != max_length`, with `i` and memory. -/
def messageGoesOn (message maxLength : Nat) (s : Nat × (Nat → UInt8)) : Bool :=
  decide (s.2 (u64 (message + s.1)) ≠ 0 ∧ s.1 ≠ maxLength)

def putByte (stackBottom message : Nat) (s : Nat × (Nat → UInt8)) : Nat × (Nat → UInt8) :=
  (u32 (s.1 + 1), Function.update s.2 (u64 (stackBottom + s.1 + 4)) (s.2 (u64 (message + s.1))))

def assertLoop (stackBottom stackTop message rounds : Nat) (mem : Nat → UInt8) : Nat × (Nat → UInt8) :=
  loopWhile (messageGoesOn message (sub64 stackTop stackBottom)) (putByte stackBottom message) rounds (0, mem)

/-- `assert_check`, with whether it returns. -/
def assertCheck (stackBottom stackTop : Nat) (conditionResult : UInt8) (message rounds : Nat)
    (mem : Nat → UInt8) : Bool × (Nat → UInt8) :=
  if conditionResult ≠ 0 then (true, mem) else
    let (i, mem) := assertLoop stackBottom stackTop message rounds mem
    (false, storeUint32 mem stackBottom i)

/-! ## The message -/

/-- The message has `len` characters, or is cut off there. -/
structure MessageLength (mem : Nat → UInt8) (message maxLength len : Nat) : Prop where
  le : len ≤ maxLength
  characters : ∀ j < len, mem (message + j) ≠ 0
  stops : len = maxLength ∨ mem (message + len) = 0

/-- The stack, with the word above it, lies apart from the `len` characters and the end of the
message. -/
structure AssertArea (stackBottom stackTop message len : Nat) : Prop where
  room : stackBottom + 4 ≤ stackTop
  small : stackTop - stackBottom < 2 ^ 32
  fits : stackTop + 4 ≤ 2 ^ 64
  message_fits : message + len < 2 ^ 64
  apart : message + len < stackBottom ∨ stackTop + 4 ≤ message

/-- The first `n` bytes of the message are put down. -/
def putDown (stackBottom message n : Nat) (mem : Nat → UInt8) (a : Nat) : UInt8 :=
  if stackBottom + 4 ≤ a ∧ a < stackBottom + 4 + n then mem (message + (a - (stackBottom + 4))) else mem a

section Message

variable {stackBottom stackTop message len : Nat} {mem : Nat → UInt8}

theorem loadUint32_storeUint32 (mem : Nat → UInt8) (addr : Nat) {v : Nat} (hv : v < 2 ^ 32) :
    loadUint32 (storeUint32 mem addr v) addr = v := by
  have hbyte : ∀ k < 4, (storeUint32 mem addr v (addr + k)).toNat = v / 2 ^ (8 * k) % 2 ^ 8 := by
    intro k hk
    rw [storeUint32, if_pos (by omega), Nat.add_sub_cancel_left, UInt8.toNat_ofNat',
      Nat.mod_eq_of_lt (Nat.mod_lt _ (by decide))]
  have hfirst : (storeUint32 mem addr v addr).toNat = v / 2 ^ (8 * 0) % 2 ^ 8 := hbyte 0 (by decide)
  rw [loadUint32, hfirst, hbyte 1 (by decide), hbyte 2 (by decide), hbyte 3 (by decide)]
  omega

/-- After `s.1` bytes of the message. -/
structure PutDown (stackBottom message len : Nat) (mem : Nat → UInt8) (s : Nat × (Nat → UInt8)) : Prop where
  le : s.1 ≤ len
  mem_eq : s.2 = putDown stackBottom message s.1 mem

section Loop

variable (h : AssertArea stackBottom stackTop message len)
  (hlen : MessageLength mem message (stackTop - stackBottom) len)

include h hlen

/-- A byte of the message that is looked at is still what it was. -/
theorem PutDown.read {s : Nat × (Nat → UInt8)} (hs : PutDown stackBottom message len mem s) :
    s.2 (u64 (message + s.1)) = mem (message + s.1) := by
  obtain ⟨hroom, hsmall, hfits, hmessage, hapart⟩ := h
  have hle := hlen.le
  have hn := hs.le
  rw [hs.mem_eq, u64_of_lt (by omega)]
  exact if_neg (by omega)

/-- The loop goes on up to the end of the message. -/
theorem PutDown.goesOn_iff {s : Nat × (Nat → UInt8)} (hs : PutDown stackBottom message len mem s) :
    messageGoesOn message (stackTop - stackBottom) s = true ↔ s.1 < len := by
  rw [messageGoesOn, decide_eq_true_iff, hs.read h hlen]
  have hn := hs.le
  have hle := hlen.le
  constructor
  · rintro ⟨hcharacter, hne⟩
    refine Nat.lt_of_le_of_ne hn fun heq => ?_
    rcases hlen.stops with hmax | hzero
    · exact hne (heq.trans hmax)
    · exact hcharacter (heq ▸ hzero)
  · intro hlt
    exact ⟨hlen.characters s.1 hlt, by omega⟩

theorem PutDown.step {s : Nat × (Nat → UInt8)} (hs : PutDown stackBottom message len mem s)
    (hlt : s.1 < len) : (putByte stackBottom message s).1 = s.1 + 1 ∧
      PutDown stackBottom message len mem (putByte stackBottom message s) := by
  have hread := hs.read h hlen
  have hle := hlen.le
  obtain ⟨hroom, hsmall, hfits, hmessage, hapart⟩ := h
  obtain ⟨hn, hmem⟩ := hs
  have hnext : (putByte stackBottom message s).1 = s.1 + 1 := u32_of_lt (by omega)
  refine ⟨hnext, by omega, funext fun a => ?_⟩
  rw [hnext, putByte, hread, hmem, u64_of_lt (by omega)]
  simp only
  rw [Function.update_apply, putDown, putDown]
  by_cases ha : a = stackBottom + s.1 + 4
  · rw [if_pos ha, if_pos (by omega)]
    congr 1
    omega
  · rw [if_neg ha]
    exact if_congr (by omega) rfl rfl

theorem assertLoop_spec {rounds : Nat} (hrounds : stackTop - stackBottom ≤ rounds) :
    assertLoop stackBottom stackTop message rounds mem = (len, putDown stackBottom message len mem) := by
  have hle := hlen.le
  have hstart : PutDown stackBottom message len mem (0, mem) :=
    ⟨Nat.zero_le _, funext fun a => (if_neg (by omega)).symm⟩
  have hstep : ∀ s, PutDown stackBottom message len mem s →
      messageGoesOn message (stackTop - stackBottom) s = true →
      PutDown stackBottom message len mem (putByte stackBottom message s) ∧
        len - (putByte stackBottom message s).1 < len - s.1 := by
    intro s hs hgoes
    have hlt := (hs.goesOn_iff h hlen).mp hgoes
    obtain ⟨hnext, hs'⟩ := hs.step h hlen hlt
    exact ⟨hs', by omega⟩
  obtain ⟨hs, hended⟩ := Loop.variant (n := rounds) (messageGoesOn message (stackTop - stackBottom))
    (putByte stackBottom message) (PutDown stackBottom message len mem) (fun s => len - s.1) hstep hstart
    (show len - 0 ≤ rounds by omega)
  rw [assertLoop, sub64_of_le (by have := h.room; omega)]
  obtain ⟨s, hrun⟩ : ∃ s, s = loopWhile (messageGoesOn message (stackTop - stackBottom))
    (putByte stackBottom message) rounds (0, mem) := ⟨_, rfl⟩
  rw [← hrun] at hs hended ⊢
  have hend : s.1 = len := by
    have hnot : ¬s.1 < len := fun hlt =>
      Bool.false_ne_true (hended.symm.trans ((hs.goesOn_iff h hlen).mpr hlt))
    have := hs.le
    omega
  rw [← hend, ← hs.mem_eq]

end Loop

/-- What a debugger finds: the length of the message, its bytes, and memory that is otherwise
as it was. The message is cut off at the size of the stack and not of what is left of it, so
its last bytes may lie above the stack. -/
structure Noted (stackBottom stackTop message : Nat) (mem : Nat → UInt8) (len : Nat) (mem' : Nat → UInt8) :
    Prop where
  noted : loadUint32 mem' stackBottom = len
  bytes : ∀ j < len, mem' (stackBottom + 4 + j) = mem (message + j)
  outside : ∀ a, a < stackBottom ∨ stackBottom + 4 + len ≤ a → mem' a = mem a
  above : ∀ k, mem' (stackTop + k) = if k < len + 4 - (stackTop - stackBottom) then
    mem (message + (stackTop - (stackBottom + 4) + k)) else mem (stackTop + k)

theorem noted_putDown (h : AssertArea stackBottom stackTop message len)
    (hlen : MessageLength mem message (stackTop - stackBottom) len) :
    Noted stackBottom stackTop message mem len
      (storeUint32 (putDown stackBottom message len mem) stackBottom len) := by
  have hle := hlen.le
  have hroom := h.room
  have hsmall := h.small
  have hbytes : ∀ j < len,
      storeUint32 (putDown stackBottom message len mem) stackBottom len (stackBottom + 4 + j) =
        mem (message + j) := by
    intro j hj
    rw [storeUint32, if_neg (by omega), putDown, if_pos (by omega), Nat.add_sub_cancel_left]
  have houtside : ∀ a, a < stackBottom ∨ stackBottom + 4 + len ≤ a →
      storeUint32 (putDown stackBottom message len mem) stackBottom len a = mem a := by
    intro a ha
    rw [storeUint32, if_neg (by omega), putDown, if_neg (by omega)]
  refine ⟨loadUint32_storeUint32 _ _ (by omega), hbytes, houtside, fun k => ?_⟩
  split_ifs with hk
  · rw [← hbytes _ (show stackTop - (stackBottom + 4) + k < len by omega)]
    congr 1
    omega
  · exact houtside _ (.inr (by omega))

/-- Whatever the message and the memory, an assertion that holds changes nothing, and one that
fails has, once it waits, noted its message. -/
theorem assertCheck_notes (h : AssertArea stackBottom stackTop message len)
    (hlen : MessageLength mem message (stackTop - stackBottom) len) :
    (∀ conditionResult ≠ 0, ∀ rounds,
      assertCheck stackBottom stackTop conditionResult message rounds mem = (true, mem)) ∧
    ∃ mem', Noted stackBottom stackTop message mem len mem' ∧
      ∀ rounds, stackTop - stackBottom ≤ rounds →
        assertCheck stackBottom stackTop 0 message rounds mem = (false, mem') := by
  refine ⟨fun conditionResult hholds rounds => if_pos hholds, _, noted_putDown h hlen,
    fun rounds hrounds => ?_⟩
  rw [assertCheck, if_neg (not_not.mpr rfl), assertLoop_spec h hlen hrounds]

end Message

/-- A message of two characters just below the stack of `link.ld`, at some place in the kernel's
half. -/
theorem assertCheck_notes_linked :
    (∀ conditionResult ≠ 0, ∀ rounds, assertCheck 0xFFFF000000094000 0xFFFF000000098000 conditionResult
      0xFFFF000000093FFD rounds (fun a => if a = 0xFFFF000000093FFF then 0 else 0x41) =
        (true, fun a => if a = 0xFFFF000000093FFF then 0 else 0x41)) ∧
    ∃ mem', Noted 0xFFFF000000094000 0xFFFF000000098000 0xFFFF000000093FFD
        (fun a => if a = 0xFFFF000000093FFF then 0 else 0x41) 2 mem' ∧
      ∀ rounds, 0xFFFF000000098000 - 0xFFFF000000094000 ≤ rounds →
        assertCheck 0xFFFF000000094000 0xFFFF000000098000 0 0xFFFF000000093FFD rounds
          (fun a => if a = 0xFFFF000000093FFF then 0 else 0x41) = (false, mem') :=
  assertCheck_notes ⟨by decide, by decide, by decide, by decide, by decide⟩
    ⟨by decide, by decide, by decide⟩

end PiVOS
