-- SUMMARY: Windows of a circular buffer as lists.
import Mathlib.Logic.Function.Basic
import Mathlib.Data.List.Basic
import Mathlib.Data.Nat.ModEq

/-!
# Circular windows

`window buffer capacity start n` lists the `n` places of a circular buffer from
`start` on. A window loses its first element when its start moves on, and gains
one behind its last when that place is written.
-/

namespace Circular

variable {α : Type} {buffer : Nat → α} {capacity start n : Nat}

/-- The `n` elements of the buffer from `start` on, wrapping at `capacity`. -/
def window (buffer : Nat → α) (capacity start n : Nat) : List α :=
  (List.range n).map fun i => buffer ((start + i) % capacity)

@[simp] theorem window_zero : window buffer capacity start 0 = [] := rfl

@[simp] theorem length_window : (window buffer capacity start n).length = n := by
  simp [window]

theorem window_mod :
    window buffer capacity (start % capacity) n = window buffer capacity start n := by
  simp [window, Nat.mod_add_mod]

theorem window_succ : window buffer capacity start (n + 1) =
    buffer (start % capacity) :: window buffer capacity (start + 1) n := by
  simp only [window, List.range_succ_eq_map, List.map_cons, List.map_map, Nat.add_zero]
  congr 1
  refine List.map_congr_left fun i _ => ?_
  simp only [Function.comp_apply, Nat.succ_eq_add_one]
  congr 2
  omega

theorem window_succ_last : window buffer capacity start (n + 1) =
    window buffer capacity start n ++ [buffer ((start + n) % capacity)] := by
  simp [window, List.range_succ]

theorem drop_window (k : Nat) : (window buffer capacity start n).drop k =
    window buffer capacity (start + k) (n - k) := by
  refine List.ext_getElem (by simp) fun i _ _ => ?_
  simp [window, Nat.add_assoc]

/-- Distinct offsets below the capacity are distinct places. -/
theorem add_mod_inj {i j : Nat} (hi : i < capacity) (hj : j < capacity)
    (h : (start + i) % capacity = (start + j) % capacity) : i = j := by
  have hmod : i % capacity = j % capacity := Nat.ModEq.add_left_cancel' start h
  rwa [Nat.mod_eq_of_lt hi, Nat.mod_eq_of_lt hj] at hmod

/-- Writing the place behind a window that does not fill the buffer leaves the window. -/
theorem window_update_behind (hn : n < capacity) (x : α) :
    window (Function.update buffer ((start + n) % capacity) x) capacity start n =
      window buffer capacity start n := by
  refine List.map_congr_left fun i hi => ?_
  have hlt : i < n := List.mem_range.mp hi
  refine Function.update_of_ne (fun h => ?_) _ _
  have := add_mod_inj (Nat.lt_trans hlt hn) hn h
  omega

/-- Writing that place and extending the window over it appends the element. -/
theorem window_push (hn : n < capacity) (x : α) :
    window (Function.update buffer ((start + n) % capacity) x) capacity start (n + 1) =
      window buffer capacity start n ++ [x] := by
  rw [window_succ_last, window_update_behind hn, Function.update_self]

end Circular
