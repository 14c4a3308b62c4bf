-- SUMMARY: The object stack of `buffer/stack.h`.
import PiVOS.Utils

/-!
# The stack buffer

The objects lie one behind the other in the buffer, so an address in it is the
index of an object. `kbuffer_stack_free` leaves the object where it is.
-/

namespace PiVOS

structure Stack (α : Type) where
  buffer : Nat → α
  capacity : Nat
  len : Nat

namespace Stack

variable {α : Type}

def full (stack : Stack α) : Bool := decide (stack.len = stack.capacity)

/-- The index of the topmost object. -/
def peek (stack : Stack α) : Option Nat :=
  if stack.len = 0 then none else some (stack.len - 1)

def alloc (stack : Stack α) : Option Nat × Stack α :=
  if stack.full then (none, stack) else
    let stack := { stack with len := u32 (stack.len + 1) }
    (stack.peek, stack)

def free (stack : Stack α) : Stack α :=
  if 0 < stack.len then { stack with len := stack.len - 1 } else stack

/-- Changing an object in place. -/
def modify (stack : Stack α) (i : Nat) (f : α → α) : Stack α :=
  { stack with buffer := Function.update stack.buffer i (f (stack.buffer i)) }

@[simp] theorem modify_len (stack : Stack α) (i : Nat) (f : α → α) :
    (stack.modify i f).len = stack.len := rfl

@[simp] theorem modify_capacity (stack : Stack α) (i : Nat) (f : α → α) :
    (stack.modify i f).capacity = stack.capacity := rfl

theorem modify_self (stack : Stack α) (i : Nat) (f : α → α) :
    (stack.modify i f).buffer i = f (stack.buffer i) := Function.update_self ..

theorem modify_of_ne (stack : Stack α) {i j : Nat} (h : j ≠ i) (f : α → α) :
    (stack.modify i f).buffer j = stack.buffer j := Function.update_of_ne h ..

theorem peek_of_pos {stack : Stack α} (h : 0 < stack.len) : stack.peek = some (stack.len - 1) :=
  if_neg (by omega)

theorem full_iff {stack : Stack α} : stack.full = true ↔ stack.len = stack.capacity :=
  decide_eq_true_iff

theorem alloc_of_room {stack : Stack α} (h : stack.len < stack.capacity)
    (hcap : stack.capacity < 2 ^ 32) :
    stack.alloc = (some stack.len, { stack with len := stack.len + 1 }) := by
  have hfull : ¬stack.full = true := fun h' => Nat.ne_of_lt h (full_iff.mp h')
  rw [alloc, if_neg hfull]
  simp only [u32_of_lt (show stack.len + 1 < 2 ^ 32 by omega)]
  rw [peek_of_pos (Nat.succ_pos _)]
  rfl

theorem free_of_pos {stack : Stack α} (h : 0 < stack.len) :
    stack.free = { stack with len := stack.len - 1 } := if_pos h

end Stack

end PiVOS
