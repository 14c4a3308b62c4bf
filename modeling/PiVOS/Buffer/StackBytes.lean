-- SUMMARY: The stack of `buffer/stack.h` in the bytes of its buffer, with the pointers it returns.
import PiVOS.Buffer.Stack
import PiVOS.Lib.Simulation
import PiVOS.Proc

/-!
# The stack in memory

The functions of `stack.h` return pointers into the buffer, `(len - 1) * align` behind its
start in 32-bit arithmetic, and those who get one store to the object behind it. As long as
no such product wraps around this is the stack of objects the processes are kept in.
-/

namespace PiVOS

structure KbufferStack where
  buffer : Nat
  capacity : Nat
  len : Nat
  align : Nat

namespace KbufferStack

/-- `KBUFFER_STACK_INIT`. -/
def init (capacity buffer align : Nat) : KbufferStack := { buffer, capacity, len := 0, align }

def full (stack : KbufferStack) : Bool := decide (stack.len = stack.capacity)

def size (stack : KbufferStack) : Nat := stack.len

def peek (stack : KbufferStack) : Nat :=
  if stack.len = 0 then null else u64 (stack.buffer + u32 (sub32 stack.len 1 * stack.align))

def alloc (stack : KbufferStack) : Nat × KbufferStack :=
  if stack.full then (null, stack) else
    let stack := { stack with len := u32 (stack.len + 1) }
    (stack.peek, stack)

def free (stack : KbufferStack) : KbufferStack :=
  if 0 < stack.len then { stack with len := stack.len - 1 } else stack

end KbufferStack

/-- The calls of `stack.h`, and what is done to the object on top through its pointer. -/
inductive StackCall (align : Nat)
  | full
  | size
  | peek
  | alloc
  | free
  | load (i : Fin align)
  | store (i : Fin align) (c : UInt8)

namespace KbufferStack

variable {align : Nat}

/-- A call, with the memory the buffer is in. Nothing is done through a null pointer. -/
def call : StackCall align → KbufferStack × (Nat → UInt8) → Nat × KbufferStack × (Nat → UInt8)
  | .full, (stack, mem) => (stack.full.toNat, stack, mem)
  | .size, (stack, mem) => (stack.size, stack, mem)
  | .peek, (stack, mem) => (stack.peek, stack, mem)
  | .alloc, (stack, mem) => (stack.alloc.1, stack.alloc.2, mem)
  | .free, (stack, mem) => (0, stack.free, mem)
  | .load i, (stack, mem) => (if stack.peek = null then 0 else (mem (u64 (stack.peek + i))).toNat, stack, mem)
  | .store i c, (stack, mem) =>
    (0, stack, if stack.peek = null then mem else Function.update mem (u64 (stack.peek + i)) c)

end KbufferStack

namespace Stack

variable {align : Nat}

/-- The pointer to the object with an index. -/
def pointer (buffer align : Nat) : Option Nat → Nat
  | none => null
  | some i => buffer + i * align

/-- A call on a stack of objects that are `align` bytes each. -/
def call (buffer : Nat) : StackCall align → Stack (Fin align → UInt8) → Nat × Stack (Fin align → UInt8)
  | .full, stack => (stack.full.toNat, stack)
  | .size, stack => (stack.len, stack)
  | .peek, stack => (pointer buffer align stack.peek, stack)
  | .alloc, stack => (pointer buffer align stack.alloc.1, stack.alloc.2)
  | .free, stack => (0, stack.free)
  | .load i, stack => (match stack.peek with
    | none => 0
    | some top => (stack.buffer top i).toNat, stack)
  | .store i c, stack => (0, match stack.peek with
    | none => stack
    | some top => stack.modify top fun object => Function.update object i c)

end Stack

/-! ## Pointers -/

namespace KbufferStack

variable {buffer capacity align : Nat} {mem : Nat → UInt8}

/-- The buffer is an object of memory with room for `capacity` objects. -/
structure Placed (buffer capacity align : Nat) : Prop where
  buffer_pos : 0 < buffer
  align_pos : 0 < align
  capacity_lt : capacity < 2 ^ 32
  fits : buffer + capacity * align ≤ 2 ^ 64

/-- No product of an index and the size of an object wraps around. -/
def Products (capacity align : Nat) : Prop := (capacity - 1) * align < 2 ^ 32

instance (capacity align : Nat) : Decidable (Products capacity align) := Nat.decLt _ _

theorem object_le (align : Nat) {i : Nat} (hi : i < capacity) :
    i * align + align ≤ capacity * align := by
  rw [← Nat.succ_mul]
  exact Nat.mul_le_mul_right align hi

theorem Placed.pointer_eq (h : Placed buffer capacity align) (hproducts : Products capacity align)
    {i : Nat} (hi : i < capacity) : u64 (buffer + u32 (i * align)) = buffer + i * align := by
  have hobject := object_le align hi
  have hle : i * align ≤ (capacity - 1) * align := Nat.mul_le_mul_right align (Nat.le_sub_one_of_lt hi)
  have hfits := h.fits
  have hpos := h.align_pos
  rw [u32_of_lt (Nat.lt_of_le_of_lt hle hproducts), u64_of_lt (by omega)]

theorem Placed.byte_eq (h : Placed buffer capacity align) {i : Nat} (hi : i < capacity) (j : Fin align) :
    u64 (buffer + i * align + j) = buffer + i * align + j := by
  have hobject := object_le align hi
  have hfits := h.fits
  have hj := j.isLt
  exact u64_of_lt (by omega)

/-- Objects have no bytes in common. -/
theorem slot_inj {i i' : Nat} {j j' : Fin align}
    (h : buffer + i * align + j = buffer + i' * align + j') : i = i' ∧ j = j' := by
  have hpos : 0 < align := Nat.lt_of_le_of_lt (Nat.zero_le _) j.isLt
  have hdiv : ∀ (k : Nat) (l : Fin align), (buffer + k * align + l - buffer) / align = k := by
    intro k l
    rw [Nat.add_assoc, Nat.add_sub_cancel_left, Nat.add_comm, Nat.add_mul_div_right _ _ hpos,
      Nat.div_eq_of_lt l.isLt, Nat.zero_add]
  obtain rfl : i = i' := by rw [← hdiv i j, h, hdiv]
  exact ⟨rfl, Fin.ext (Nat.add_left_cancel h)⟩

/-- A store to byte `l` of object `top`. -/
theorem update_slot (objects : Nat → Fin align → UInt8) {i : Nat} {j : Fin align}
    (hbyte : mem (buffer + i * align + j) = objects i j) (top : Nat) (l : Fin align) (c : UInt8) :
    Function.update mem (buffer + top * align + l) c (buffer + i * align + j) =
      Function.update objects top (Function.update (objects top) l c) i j := by
  by_cases hi : i = top
  · subst hi
    rw [Function.update_self, Function.update_apply, Function.update_apply]
    exact if_congr ⟨fun h => (slot_inj h).2, fun h => by rw [h]⟩ rfl hbyte
  · rw [Function.update_of_ne fun h => hi (slot_inj h).1, Function.update_of_ne hi, hbyte]

/-! ## One call -/

/-- The bytes of the buffer are those of the objects of `t`, and the memory around it is as it
was in `mem₀`. -/
structure Holds (buffer capacity : Nat) (mem₀ : Nat → UInt8) (s : KbufferStack × (Nat → UInt8))
    (t : Stack (Fin align → UInt8)) : Prop where
  stack : s.1 = { buffer, capacity, len := t.len, align }
  capacity_eq : t.capacity = capacity
  le : t.len ≤ capacity
  bytes : ∀ i < capacity, ∀ j : Fin align, s.2 (buffer + i * align + j) = t.buffer i j
  outside : ∀ a, a < buffer ∨ buffer + capacity * align ≤ a → s.2 a = mem₀ a

theorem peek_mk (hplaced : Placed buffer capacity align) (hproducts : Products capacity align)
    {t : Stack (Fin align → UInt8)} (hle : t.len ≤ capacity) :
    (KbufferStack.mk buffer capacity t.len align).peek = Stack.pointer buffer align t.peek := by
  rw [peek, Stack.peek]
  by_cases hzero : t.len = 0
  · rw [if_pos hzero, if_pos hzero]
    rfl
  · rw [if_neg hzero, if_neg hzero, sub32_of_le (Nat.one_le_iff_ne_zero.mpr hzero)]
    exact hplaced.pointer_eq hproducts (by omega)

theorem alloc_of_room {len : Nat} (hroom : len < capacity) (hlt : capacity < 2 ^ 32) :
    (KbufferStack.mk buffer capacity len align).alloc =
      (u64 (buffer + u32 (len * align)), ⟨buffer, capacity, len + 1, align⟩) := by
  have hfull : ¬(KbufferStack.mk buffer capacity len align).full = true := fun hfull =>
    Nat.ne_of_lt hroom (of_decide_eq_true hfull)
  rw [alloc, if_neg hfull]
  simp only [u32_of_lt (show len + 1 < 2 ^ 32 by omega)]
  rw [peek, if_neg (Nat.succ_ne_zero len), sub32_of_le (Nat.le_add_left 1 len), Nat.add_sub_cancel]

theorem pointer_ne_null (hplaced : Placed buffer capacity align) (i : Nat) :
    Stack.pointer buffer align (some i) ≠ null :=
  Nat.ne_of_gt (Nat.lt_of_lt_of_le hplaced.buffer_pos (Nat.le_add_right _ _))

theorem top_lt {t : Stack (Fin align → UInt8)} {top : Nat} (htop : t.peek = some top)
    (hle : t.len ≤ capacity) : top < capacity := by
  unfold Stack.peek at htop
  split at htop
  · cases htop
  · obtain rfl := Option.some.inj htop
    omega

theorem Holds.call (hplaced : Placed buffer capacity align) (hproducts : Products capacity align)
    (c : StackCall align) (s : KbufferStack × (Nat → UInt8)) (t : Stack (Fin align → UInt8))
    (h : Holds buffer capacity mem s t) :
    (KbufferStack.call c s).1 = (t.call buffer c).1 ∧
      Holds buffer capacity mem (KbufferStack.call c s).2 (t.call buffer c).2 := by
  obtain ⟨stack, mem'⟩ := s
  obtain ⟨hstack, hcap, hle, hbytes, houtside⟩ := h
  obtain rfl : stack = _ := hstack
  have hpeek := peek_mk hplaced hproducts hle
  have hsame : Holds buffer capacity mem (⟨buffer, capacity, t.len, align⟩, mem') t :=
    ⟨rfl, hcap, hle, hbytes, houtside⟩
  have hnull : Stack.pointer buffer align none = null := rfl
  simp only at hbytes houtside
  cases c with
  | full =>
    refine ⟨?_, hsame⟩
    rw [KbufferStack.call, Stack.call, KbufferStack.full, Stack.full, hcap]
  | size => exact ⟨rfl, hsame⟩
  | peek => exact ⟨hpeek, hsame⟩
  | alloc =>
    rw [KbufferStack.call, Stack.call]
    by_cases hfull : t.len = capacity
    · have hfull' : t.full = true := Stack.full_iff.mpr (hfull.trans hcap.symm)
      have hfull₁ : (KbufferStack.mk buffer capacity t.len align).full = true := decide_eq_true hfull
      rw [KbufferStack.alloc, Stack.alloc, if_pos hfull', if_pos hfull₁]
      exact ⟨rfl, hsame⟩
    · have hroom : t.len < t.capacity := by omega
      have hlt := hplaced.capacity_lt
      rw [alloc_of_room (by omega) hlt, Stack.alloc_of_room hroom (hcap ▸ hlt)]
      exact ⟨hplaced.pointer_eq hproducts (by omega), rfl, hcap, Nat.succ_le_of_lt (hcap ▸ hroom), hbytes,
        houtside⟩
  | free =>
    rw [KbufferStack.call, Stack.call, KbufferStack.free, Stack.free]
    by_cases hpos : 0 < t.len
    · rw [if_pos hpos, if_pos hpos]
      exact ⟨rfl, rfl, hcap, Nat.le_trans (Nat.sub_le _ _) hle, hbytes, houtside⟩
    · rw [if_neg hpos, if_neg hpos]
      exact ⟨rfl, hsame⟩
  | load i =>
    refine ⟨?_, hsame⟩
    rw [KbufferStack.call, Stack.call, hpeek]
    cases htop : t.peek with
    | none =>
      rw [if_pos hnull]
    | some top =>
      have hlt := top_lt htop hle
      rw [if_neg (pointer_ne_null hplaced top), Stack.pointer, hplaced.byte_eq hlt, hbytes top hlt]
  | store i c =>
    rw [KbufferStack.call, Stack.call, hpeek]
    cases htop : t.peek with
    | none =>
      rw [if_pos hnull]
      exact ⟨rfl, hsame⟩
    | some top =>
      have hlt := top_lt htop hle
      have hobject := object_le align hlt
      have hi := i.isLt
      rw [if_neg (pointer_ne_null hplaced top), Stack.pointer, hplaced.byte_eq hlt]
      refine ⟨rfl, rfl, hcap, hle, fun k hk j => ?_, fun a ha => ?_⟩
      · exact update_slot t.buffer (hbytes k hk j) top i c
      · exact (Function.update_of_ne (by omega) _ _).trans (houtside a ha)

/-! ## Sequences of calls -/

/-- The objects that are in the buffer before the first call. -/
def objects (buffer capacity align : Nat) (mem : Nat → UInt8) : Stack (Fin align → UInt8) :=
  { buffer := fun i j => mem (buffer + i * align + j), capacity, len := 0 }

/-- The calls have the results they have on objects, and leave them in the buffer. -/
structure RefinesObjects (buffer capacity : Nat) (mem : Nat → UInt8) (calls : List (StackCall align)) :
    Prop where
  results : (runCalls call calls (init capacity buffer align, mem)).1 =
    (runCalls (Stack.call buffer) calls (objects buffer capacity align mem)).1
  holds : Holds buffer capacity mem (runCalls call calls (init capacity buffer align, mem)).2
    (runCalls (Stack.call buffer) calls (objects buffer capacity align mem)).2

theorem refinesObjects (hplaced : Placed buffer capacity align) (hproducts : Products capacity align)
    (mem : Nat → UInt8) (calls : List (StackCall align)) : RefinesObjects buffer capacity mem calls := by
  have hstart : Holds buffer capacity mem (init capacity buffer align, mem)
      (objects buffer capacity align mem) :=
    ⟨rfl, rfl, Nat.zero_le _, fun _ _ _ => rfl, fun _ _ => rfl⟩
  obtain ⟨hresults, hend⟩ := Simulation.simulates (Holds.call hplaced hproducts) calls hstart
  exact ⟨hresults, hend⟩

def allocs (align n : Nat) : List (StackCall align) := List.replicate n .alloc

/-- Filling the stack, in memory and with objects. -/
theorem run_allocs (hplaced : Placed buffer capacity align) (mem : Nat → UInt8)
    (t : Stack (Fin align → UInt8)) (hcap : t.capacity = capacity) {n : Nat} (hn : t.len + n ≤ capacity) :
    (runCalls call (allocs align n) (⟨buffer, capacity, t.len, align⟩, mem)).2 =
        (⟨buffer, capacity, t.len + n, align⟩, mem) ∧
      (runCalls (Stack.call buffer) (allocs align n) t).2 = { t with len := t.len + n } := by
  have hlt := hplaced.capacity_lt
  induction n generalizing t with
  | zero => exact ⟨rfl, rfl⟩
  | succ n ih =>
    have hroom : t.len < t.capacity := by omega
    obtain ⟨hbytes, hobjects⟩ := ih { t with len := t.len + 1 } hcap (by simp only; omega)
    rw [allocs, List.replicate_succ, ← allocs, Simulation.runCalls_cons, Simulation.runCalls_cons]
    simp only [call, Stack.call, alloc_of_room (hcap ▸ hroom) hlt, Stack.alloc_of_room hroom (hcap ▸ hlt)]
    rw [hbytes, hobjects]
    simp only [Nat.add_right_comm t.len 1 n, Nat.add_assoc, and_self]

/-- A product that wraps around shows in the last pointer when the stack is filled. -/
theorem not_refinesObjects (hplaced : Placed buffer capacity align) (hproducts : ¬Products capacity align)
    (mem : Nat → UInt8) :
    ¬RefinesObjects buffer capacity mem (allocs align (capacity - 1) ++ [.alloc]) := by
  intro h
  have hcap : capacity - 1 < capacity := by
    unfold Products at hproducts
    rcases Nat.eq_zero_or_pos capacity with rfl | hpos
    · simp at hproducts
    · exact Nat.sub_lt hpos Nat.one_pos
  have hlt := hplaced.capacity_lt
  obtain ⟨hbytes, hobjects⟩ := run_allocs hplaced mem (objects buffer capacity align mem) rfl
    (n := capacity - 1) (show 0 + (capacity - 1) ≤ capacity by omega)
  have hstart : (KbufferStack.mk buffer capacity (objects buffer capacity align mem).len align) =
      init capacity buffer align := rfl
  have hlen : (objects buffer capacity align mem).len + (capacity - 1) = capacity - 1 := Nat.zero_add _
  have hlast := congrArg List.getLast? h.results
  rw [hstart] at hbytes
  rw [Simulation.runCalls_append, Simulation.runCalls_append, hbytes, hobjects, hlen] at hlast
  simp only [Simulation.runCalls_cons, Simulation.runCalls_nil, List.getLast?_concat, call, Stack.call,
    alloc_of_room hcap hlt] at hlast
  rw [Stack.alloc_of_room hcap hlt] at hlast
  have hpointer : u64 (buffer + u32 ((capacity - 1) * align)) = buffer + (capacity - 1) * align :=
    Option.some.inj hlast
  have hwraps : 2 ^ 32 ≤ (capacity - 1) * align := Nat.le_of_not_lt hproducts
  have hsmall := u32_lt ((capacity - 1) * align)
  have hle : u64 (buffer + u32 ((capacity - 1) * align)) ≤ _ := Nat.mod_le _ _
  omega

/-- In memory the stack is one of objects, over all sequences of calls, exactly if no product of
an index and the size of an object wraps around. -/
theorem refinesObjects_iff (hplaced : Placed buffer capacity align) (mem : Nat → UInt8) :
    (∀ calls : List (StackCall align), RefinesObjects buffer capacity mem calls) ↔
      Products capacity align := by
  refine ⟨fun h => ?_, fun hproducts calls => refinesObjects hplaced hproducts mem calls⟩
  by_contra hproducts
  exact not_refinesObjects hplaced hproducts mem (h _)

/-- `kproc_stack`, with its buffer at some place in the kernel's half. -/
theorem refinesObjects_iff_kprocStack :
    (∀ calls : List (StackCall sizeofKproc),
        RefinesObjects 0xFFFF000000090000 kprocMaxCount (fun _ => 0) calls) ↔
      Products kprocMaxCount sizeofKproc :=
  refinesObjects_iff ⟨by decide, by decide, by decide, by decide⟩ fun _ => 0

example : Products kprocMaxCount sizeofKproc := by decide

end KbufferStack
end PiVOS
