-- SUMMARY: The byte ring refines a bounded first-in first-out queue.
import PiVOS.Buffer.Ring
import PiVOS.Lib.Simulation

/-!
# The ring as a queue

What the ring is for: a list of at most `capacity` bytes, written at its end and
read from its front. The number of dropped bytes is returned as an `int32_t`,
which can hold all of them but `2 ^ 31`.
-/

namespace PiVOS

/-- The calls of `ring.h`. -/
inductive RingCall
  | write (c : UInt8)
  | read
  | free (n : UInt32)
  | reset
  | available
  | size

/-- A queue with room for `capacity` bytes, oldest first. -/
structure Queue (capacity : Nat) where
  bytes : List UInt8
  fits : bytes.length ≤ capacity

namespace Queue

variable {capacity : Nat}

def empty (capacity : Nat) : Queue capacity := ⟨[], Nat.zero_le _⟩

/-- What a call does to a queue, where `asResult` is how the number of dropped
bytes is returned. -/
def call (asResult : Nat → Int) : RingCall → Queue capacity → Int × Queue capacity
  | .write c, q =>
    if h : q.bytes.length = capacity then (-1, q)
    else (0, ⟨q.bytes ++ [c], by simpa [Nat.succ_le_iff] using Nat.lt_of_le_of_ne q.fits h⟩)
  | .read, ⟨[], fits⟩ => (-1, ⟨[], fits⟩)
  | .read, ⟨c :: bytes, fits⟩ => (c.toNat, ⟨bytes, Nat.le_of_succ_le fits⟩)
  | .free n, q =>
    let dropped := min n.toNat q.bytes.length
    (asResult dropped,
      ⟨q.bytes.drop dropped, by rw [List.length_drop]; exact Nat.le_trans (Nat.sub_le _ _) q.fits⟩)
  | .reset, _ => (0, empty capacity)
  | .available, q => (((capacity - q.bytes.length : Nat) : Int), q)
  | .size, q => (q.bytes.length, q)

end Queue

namespace Ring

def call : RingCall → Ring → Int × Ring
  | .write c, buf => buf.write c
  | .read, buf => buf.read
  | .free n, buf => buf.free n.toNat
  | .reset, buf => buf.reset
  | .available, buf => (buf.available, buf)
  | .size, buf => (buf.size, buf)

/-! ## One call -/

/-- The ring is in order and holds the bytes of the queue. -/
structure Holds {capacity : Nat} (buf : Ring) (q : Queue capacity) : Prop where
  wellFormed : buf.WellFormed
  capacity_eq : buf.capacity = capacity
  bytes : buf.toList = q.bytes

theorem Holds.length {capacity : Nat} {buf : Ring} {q : Queue capacity} (h : buf.Holds q) :
    q.bytes.length = buf.size := by
  rw [← h.bytes, length_toList]

theorem Holds.call {capacity : Nat} (c : RingCall) (buf : Ring) (q : Queue capacity)
    (h : buf.Holds q) :
    (buf.call c).1 = (q.call int32 c).1 ∧ (buf.call c).2.Holds (q.call int32 c).2 := by
  have hlength := h.length
  have hcap := h.capacity_eq
  cases c with
  | write c =>
    simp only [Ring.call, Queue.call, hlength]
    by_cases hfull : buf.size = capacity
    · rw [write_of_full (hfull.trans hcap.symm), dif_pos hfull]
      exact ⟨rfl, h⟩
    · have hroom : buf.size ≠ buf.capacity := hcap ▸ hfull
      rw [dif_neg hfull]
      refine ⟨write_fst_of_room hroom c, write_wellFormed h.wellFormed c, ?_, ?_⟩
      · rw [capacity_write, hcap]
      · rw [toList_write h.wellFormed hroom, h.bytes]
  | read =>
    obtain ⟨bytes, fits⟩ := q
    cases bytes with
    | nil =>
      simp only [Ring.call, Queue.call, read_of_empty (toList_eq_nil.mp h.bytes)]
      exact ⟨trivial, h⟩
    | cons c bytes =>
      have hne : buf.size ≠ 0 := by
        rw [← hlength]
        simp
      obtain ⟨c', hread, hlist⟩ := toList_read h.wellFormed hne
      obtain ⟨rfl, hrest⟩ := List.cons.inj (h.bytes.symm.trans hlist)
      refine ⟨hread, read_wellFormed h.wellFormed, ?_, hrest.symm⟩
      rw [Ring.call, capacity_read, hcap]
  | free n =>
    simp only [Ring.call, Queue.call, hlength]
    refine ⟨by rw [free_eq], free_wellFormed h.wellFormed _, ?_, ?_⟩
    · rw [free_eq, hcap]
    · rw [toList_free h.wellFormed, h.bytes]
  | reset => exact ⟨rfl, reset_wellFormed h.wellFormed, hcap, rfl⟩
  | available =>
    simp only [Ring.call, Queue.call, hlength, available_eq h.wellFormed, hcap]
    exact ⟨trivial, h⟩
  | size =>
    simp only [Ring.call, Queue.call, hlength]
    exact ⟨trivial, h⟩

/-! ## Sequences of calls -/

/-- Over all calls the ring behaves like a queue. -/
theorem run_holds {capacity : Nat} (hpos : 1 ≤ capacity) (hle : capacity ≤ 2 ^ 31)
    (buffer : Nat → UInt8) (calls : List RingCall) :
    (runCalls Ring.call calls (init capacity buffer)).1 =
        (runCalls (Queue.call int32) calls (Queue.empty capacity)).1 ∧
      (runCalls Ring.call calls (init capacity buffer)).2.Holds
        (runCalls (Queue.call int32) calls (Queue.empty capacity)).2 :=
  Simulation.simulates Holds.call calls ⟨init_wellFormed buffer hpos hle, rfl, rfl⟩

/-- After the calls the ring and a queue have given the same results and hold the
same bytes, the indices are right, and a call that is refused changes nothing. -/
structure RefinesQueue (asResult : Nat → Int) (capacity : Nat) (buffer : Nat → UInt8)
    (calls : List RingCall) : Prop where
  results : (runCalls Ring.call calls (init capacity buffer)).1 =
    (runCalls (Queue.call asResult) calls (Queue.empty capacity)).1
  bytes : (runCalls Ring.call calls (init capacity buffer)).2.toList =
    (runCalls (Queue.call asResult) calls (Queue.empty capacity)).2.bytes
  readIdx_lt : (runCalls Ring.call calls (init capacity buffer)).2.readIdx < capacity
  writeIdx_lt : (runCalls Ring.call calls (init capacity buffer)).2.writeIdx < capacity
  size_le : (runCalls Ring.call calls (init capacity buffer)).2.size ≤ capacity
  writeIdx_eq : (runCalls Ring.call calls (init capacity buffer)).2.writeIdx =
    ((runCalls Ring.call calls (init capacity buffer)).2.readIdx +
      (runCalls Ring.call calls (init capacity buffer)).2.size) % capacity
  write_full : (runCalls Ring.call calls (init capacity buffer)).2.size = capacity → ∀ c,
    (runCalls Ring.call calls (init capacity buffer)).2.write c =
      (-1, (runCalls Ring.call calls (init capacity buffer)).2)
  read_empty : (runCalls Ring.call calls (init capacity buffer)).2.size = 0 →
    (runCalls Ring.call calls (init capacity buffer)).2.read =
      (-1, (runCalls Ring.call calls (init capacity buffer)).2)

/-- The ring is a queue whose count of dropped bytes comes as an `int32_t`. -/
theorem refinesQueue_int32 {capacity : Nat} (hpos : 1 ≤ capacity) (hle : capacity ≤ 2 ^ 31)
    (buffer : Nat → UInt8) (calls : List RingCall) :
    RefinesQueue int32 capacity buffer calls := by
  obtain ⟨hresults, hend⟩ := run_holds hpos hle buffer calls
  obtain ⟨-, -, hsize, hread, hwrite⟩ := hend.wellFormed
  have hcap := hend.capacity_eq
  rw [hcap] at hsize hread hwrite
  refine ⟨hresults, hend.bytes, hread, ?_, hsize, hwrite, fun hfull c => ?_, read_of_empty⟩
  · rw [hwrite]
    exact Nat.mod_lt _ hpos
  · exact write_of_full (hfull.trans hcap.symm) c

theorem refinesQueue_int32_wraps : RefinesQueue int32 2 (fun _ => 0)
    [.write 1, .write 2, .write 3, .read, .write 4, .free 5, .read] :=
  refinesQueue_int32 (by decide) (by decide) _ _

/-- Writes that fit are all stored. -/
theorem queue_writes (asResult : Nat → Int) {capacity : Nat} (c : UInt8) (n : Nat)
    (q : Queue capacity) (h : q.bytes.length + n ≤ capacity) :
    (runCalls (Queue.call asResult) (List.replicate n (.write c)) q).2.bytes.length =
      q.bytes.length + n := by
  induction n generalizing q with
  | zero => rfl
  | succ n ih =>
    have hroom : q.bytes.length ≠ capacity := by omega
    rw [List.replicate_succ, Simulation.runCalls_cons]
    simp only [Queue.call, dif_neg hroom]
    rw [ih _ (by rw [List.length_append, List.length_singleton]; omega), List.length_append,
      List.length_singleton]
    omega

/-- Filling a queue and dropping everything returns the capacity in the end. -/
theorem queue_fill_free (asResult : Nat → Int) (n : UInt32) (c : UInt8) :
    (runCalls (Queue.call asResult) (List.replicate n.toNat (.write c) ++ [.free n])
      (Queue.empty n.toNat)).1.getLast? = some (asResult n.toNat) := by
  have hlength := queue_writes asResult c n.toNat (Queue.empty n.toNat) (Nat.le_of_eq (Nat.zero_add _))
  rw [Simulation.runCalls_append]
  simp only [Simulation.runCalls_cons, Simulation.runCalls_nil, Queue.call, hlength,
    List.getLast?_concat]
  rw [show (Queue.empty n.toNat).bytes.length = 0 from rfl, Nat.zero_add, Nat.min_self]

/-- A ring of the largest capacity that is filled and emptied by one call returns a
negative number. -/
theorem not_refinesQueue_count : ¬∀ capacity buffer calls, 1 ≤ capacity → capacity ≤ 2 ^ 31 →
    RefinesQueue Nat.cast capacity buffer calls := by
  intro h
  have hall : UInt32.toNat 2147483648 ≤ 2 ^ 31 := by decide
  have hring := (run_holds (by decide) hall (fun _ => 0)
    (List.replicate (UInt32.toNat 2147483648) (.write 0) ++ [.free 2147483648])).1
  have hqueue := (h (UInt32.toNat 2147483648) (fun _ => 0)
    (List.replicate (UInt32.toNat 2147483648) (.write 0) ++ [.free 2147483648]) (by decide) hall).results
  have hlast := congrArg List.getLast? (hring.symm.trans hqueue)
  rw [queue_fill_free, queue_fill_free, Option.some.injEq] at hlast
  exact absurd hlast (by decide)

end Ring

end PiVOS
