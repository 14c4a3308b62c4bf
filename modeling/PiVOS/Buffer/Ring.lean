-- SUMMARY: The byte ring of `buffer/ring.h` and the queue it holds.
import PiVOS.Lib.Circular
import PiVOS.Utils

/-!
# The ring buffer

`size` bytes are held from `read_idx` on, wrapping at `capacity`. Reading gives
the oldest byte as a number, or `-1` when there is none.
-/

namespace PiVOS

structure Ring where
  buffer : Nat → UInt8
  capacity : Nat
  size : Nat
  readIdx : Nat
  writeIdx : Nat

namespace Ring

/-- `KBUFFER_RING_INIT`: the buffer is whatever memory it is put in. -/
def init (capacity : Nat) (buffer : Nat → UInt8) : Ring :=
  { buffer, capacity, size := 0, readIdx := 0, writeIdx := 0 }

def write (buf : Ring) (c : UInt8) : Int × Ring :=
  if buf.size = buf.capacity then (-1, buf) else
    (0, { buf with
      buffer := Function.update buf.buffer buf.writeIdx c
      writeIdx := u32 (buf.writeIdx + 1) % buf.capacity
      size := u32 (buf.size + 1) })

def read (buf : Ring) : Int × Ring :=
  if buf.size = 0 then (-1, buf) else
    ((buf.buffer buf.readIdx).toNat, { buf with
      readIdx := u32 (buf.readIdx + 1) % buf.capacity
      size := sub32 buf.size 1 })

/-- `kbuffer_ring_free`. -/
def free (buf : Ring) (n : Nat) : Int × Ring :=
  let toFree := if buf.size < n then buf.size else n
  (int32 toFree, { buf with
    readIdx := u32 (buf.readIdx + toFree) % buf.capacity
    size := sub32 buf.size toFree })

/-- `kbuffer_ring_available`; `kbuffer_ring_size` is the field `size`. -/
def available (buf : Ring) : Nat := sub32 buf.capacity buf.size

def reset (buf : Ring) : Int × Ring := (0, { buf with size := 0, readIdx := 0, writeIdx := 0 })

/-! ## The queue in a ring -/

/-- The bytes held, oldest first. -/
def toList (buf : Ring) : List UInt8 :=
  Circular.window buf.buffer buf.capacity buf.readIdx buf.size

structure WellFormed (buf : Ring) : Prop where
  capacity_pos : 0 < buf.capacity
  capacity_le : buf.capacity ≤ 2 ^ 31
  size_le : buf.size ≤ buf.capacity
  readIdx_lt : buf.readIdx < buf.capacity
  writeIdx_eq : buf.writeIdx = (buf.readIdx + buf.size) % buf.capacity

@[simp] theorem length_toList (buf : Ring) : buf.toList.length = buf.size :=
  Circular.length_window

theorem toList_eq_nil {buf : Ring} : buf.toList = [] ↔ buf.size = 0 := by
  rw [← List.length_eq_zero_iff, length_toList]

theorem init_wellFormed {capacity : Nat} (buffer : Nat → UInt8) (hpos : 0 < capacity)
    (hle : capacity ≤ 2 ^ 31) : (init capacity buffer).WellFormed where
  capacity_pos := hpos
  capacity_le := hle
  size_le := Nat.zero_le _
  readIdx_lt := hpos
  writeIdx_eq := (Nat.zero_mod _).symm

@[simp] theorem toList_init (capacity : Nat) (buffer : Nat → UInt8) :
    (init capacity buffer).toList = [] := rfl

theorem available_eq {buf : Ring} (h : buf.WellFormed) :
    buf.available = buf.capacity - buf.size :=
  sub32_of_le h.size_le

/-! ## Writing -/

theorem write_of_full {buf : Ring} (hfull : buf.size = buf.capacity) (c : UInt8) :
    buf.write c = (-1, buf) := by
  rw [Ring.write, if_pos hfull]

theorem write_fst_of_room {buf : Ring} (hroom : buf.size ≠ buf.capacity) (c : UInt8) :
    (buf.write c).1 = 0 := by
  rw [Ring.write, if_neg hroom]

/-- A byte written to a ring with room is behind all others. -/
theorem toList_write {buf : Ring} (h : buf.WellFormed) (hroom : buf.size ≠ buf.capacity)
    (c : UInt8) : (buf.write c).2.toList = buf.toList ++ [c] := by
  have hsize : buf.size < buf.capacity := lt_of_le_of_ne h.size_le hroom
  have hcap := h.capacity_le
  rw [Ring.write, if_neg hroom]
  simp only [toList, h.writeIdx_eq]
  rw [u32_of_lt (by omega), Circular.window_push hsize]

theorem size_write {buf : Ring} (h : buf.WellFormed) (hroom : buf.size ≠ buf.capacity)
    (c : UInt8) : (buf.write c).2.size = buf.size + 1 := by
  simpa using congrArg List.length (toList_write h hroom c)

theorem write_wellFormed {buf : Ring} (h : buf.WellFormed) (c : UInt8) :
    (buf.write c).2.WellFormed := by
  obtain ⟨hpos, hcap, hsize, hread, hwrite⟩ := h
  by_cases hfull : buf.size = buf.capacity
  · rw [write_of_full hfull]
    exact ⟨hpos, hcap, hsize, hread, hwrite⟩
  · have hlt : buf.writeIdx < buf.capacity := hwrite ▸ Nat.mod_lt _ hpos
    rw [Ring.write, if_neg hfull]
    refine ⟨hpos, hcap, ?_, hread, ?_⟩ <;> simp only
    · rw [u32_of_lt (by omega)]; omega
    · rw [u32_of_lt (by omega), u32_of_lt (by omega), hwrite, Nat.mod_add_mod, Nat.add_assoc]

/-! ## Reading -/

theorem read_of_empty {buf : Ring} (hempty : buf.size = 0) : buf.read = (-1, buf) := by
  rw [Ring.read, if_pos hempty]

/-- Reading a ring that holds something removes the oldest byte and returns it. -/
theorem toList_read {buf : Ring} (h : buf.WellFormed) (hne : buf.size ≠ 0) :
    ∃ c : UInt8, buf.read.1 = c.toNat ∧ buf.toList = c :: buf.read.2.toList := by
  obtain ⟨-, hcap, hsize, hread, -⟩ := h
  refine ⟨buf.buffer buf.readIdx, by rw [Ring.read, if_neg hne], ?_⟩
  obtain ⟨n, hn⟩ := Nat.exists_eq_succ_of_ne_zero hne
  rw [Ring.read, if_neg hne]
  simp only [toList]
  rw [sub32_of_le (by omega), u32_of_lt (by omega), Circular.window_mod, hn,
    Nat.succ_eq_add_one, Circular.window_succ, Nat.mod_eq_of_lt hread, Nat.add_sub_cancel]

theorem read_wellFormed {buf : Ring} (h : buf.WellFormed) : buf.read.2.WellFormed := by
  obtain ⟨hpos, hcap, hsize, hread, hwrite⟩ := h
  by_cases hempty : buf.size = 0
  · rw [read_of_empty hempty]
    exact ⟨hpos, hcap, hsize, hread, hwrite⟩
  · rw [Ring.read, if_neg hempty]
    refine ⟨hpos, hcap, ?_, ?_, ?_⟩ <;> simp only
    · rw [sub32_of_le (by omega)]; omega
    · exact Nat.mod_lt _ hpos
    · rw [sub32_of_le (by omega), u32_of_lt (by omega), hwrite, Nat.mod_add_mod]
      congr 1
      omega

theorem size_read {buf : Ring} (h : buf.WellFormed) (hne : buf.size ≠ 0) :
    buf.read.2.size + 1 = buf.size := by
  obtain ⟨c, -, htail⟩ := toList_read h hne
  simpa using (congrArg List.length htail).symm

/-! ## Dropping bytes -/

theorem free_eq (buf : Ring) (n : Nat) : buf.free n = (int32 (min n buf.size), { buf with
    readIdx := u32 (buf.readIdx + min n buf.size) % buf.capacity
    size := sub32 buf.size (min n buf.size) }) := by
  have hmin : (if buf.size < n then buf.size else n) = min n buf.size := by
    split <;> omega
  rw [free, hmin]

/-- The oldest bytes are dropped. -/
theorem toList_free {buf : Ring} (h : buf.WellFormed) (n : Nat) :
    (buf.free n).2.toList = buf.toList.drop (min n buf.size) := by
  obtain ⟨-, hcap, hsize, hread, -⟩ := h
  rw [free_eq]
  simp only [toList]
  rw [sub32_of_le (by omega), u32_of_lt (by omega), Circular.window_mod, Circular.drop_window]

theorem free_wellFormed {buf : Ring} (h : buf.WellFormed) (n : Nat) :
    (buf.free n).2.WellFormed := by
  obtain ⟨hpos, hcap, hsize, hread, hwrite⟩ := h
  rw [free_eq]
  refine ⟨hpos, hcap, ?_, Nat.mod_lt _ hpos, ?_⟩ <;> simp only
  · rw [sub32_of_le (by omega)]
    omega
  · rw [sub32_of_le (by omega), u32_of_lt (by omega), hwrite, Nat.mod_add_mod]
    congr 1
    omega

theorem reset_wellFormed {buf : Ring} (h : buf.WellFormed) : buf.reset.2.WellFormed :=
  ⟨h.capacity_pos, h.capacity_le, Nat.zero_le _, h.capacity_pos, (Nat.zero_mod _).symm⟩

@[simp] theorem capacity_write (buf : Ring) (c : UInt8) :
    (buf.write c).2.capacity = buf.capacity := by
  by_cases hfull : buf.size = buf.capacity
  · rw [write_of_full hfull]
  · rw [Ring.write, if_neg hfull]

@[simp] theorem capacity_read (buf : Ring) : buf.read.2.capacity = buf.capacity := by
  by_cases hempty : buf.size = 0
  · rw [read_of_empty hempty]
  · rw [Ring.read, if_neg hempty]

end Ring

end PiVOS
