-- SUMMARY: Tables of optional entries, accessed at an integer index.
import Mathlib.Data.List.Basic
import Mathlib.Logic.Function.Basic

/-!
# Tables

A table of `n` slots, each empty or bound. An access outside the slots has no
result, so a computation that yields one made none.

A write-once table is bound by `bindOnce` only, which refuses a slot that is bound
and a number that is no slot. What it holds is what its history gives: for every
slot the first thing that was to be bound to it.
-/

structure Table (n : Nat) (α : Type) where
  entry : Fin n → Option α

namespace Table

variable {n : Nat} {α : Type}

def empty : Table n α := ⟨fun _ => none⟩

/-- What slot `i` holds. -/
def slot (t : Table n α) (i : Int) : Option (Option α) :=
  if h : 0 ≤ i ∧ i < n then some (t.entry ⟨i.toNat, (Int.toNat_lt h.1).mpr h.2⟩) else none

/-- The table with slot `i` bound to `x`. -/
def bind (t : Table n α) (i : Int) (x : α) : Option (Table n α) :=
  if h : 0 ≤ i ∧ i < n then
    some ⟨Function.update t.entry ⟨i.toNat, (Int.toNat_lt h.1).mpr h.2⟩ (some x)⟩
  else none

/-- Slot `i` is bound to `x`. -/
def Bound (t : Table n α) (i : Int) (x : α) : Prop := t.slot i = some (some x)

theorem slot_of_not_mem {t : Table n α} {i : Int} (h : ¬(0 ≤ i ∧ i < n)) : t.slot i = none :=
  dif_neg h

theorem slot_empty {i : Int} (h : 0 ≤ i ∧ i < n) : (empty : Table n α).slot i = some none :=
  dif_pos h

/-- The first slots hold `xs`, the others nothing. -/
structure Lists (t : Table n α) (xs : List α) : Prop where
  fits : xs.length ≤ n
  slots : ∀ i < n, t.slot (i : Nat) = some xs[i]?

theorem empty_lists : (empty : Table n α).Lists [] :=
  ⟨Nat.zero_le n, fun i hi => slot_empty ⟨by omega, by omega⟩⟩

/-- Binding the next slot appends to the entries. -/
theorem Lists.bind {t : Table n α} {xs : List α} (h : t.Lists xs) (hroom : xs.length < n) (x : α) :
    ∃ t', t.bind xs.length x = some t' ∧ t'.Lists (xs ++ [x]) := by
  refine ⟨_, dif_pos ⟨by omega, by omega⟩, by simpa using Nat.succ_le_of_lt hroom, fun i hi => ?_⟩
  have hin : 0 ≤ (i : Int) ∧ (i : Int) < n := ⟨by omega, by omega⟩
  have hold := h.slots i hi
  unfold slot at hold ⊢
  rw [dif_pos hin, Option.some_inj] at hold ⊢
  rcases Nat.lt_trichotomy i xs.length with hlt | rfl | hgt
  · rw [List.getElem?_append_left hlt, ← hold]
    exact Function.update_of_ne (fun heq => Nat.ne_of_lt hlt (congrArg Fin.val heq)) _ _
  · rw [List.getElem?_concat_length]
    exact Function.update_self ..
  · rw [List.getElem?_eq_none (Nat.le_of_lt hgt)] at hold
    rw [List.getElem?_eq_none (by simpa using Nat.succ_le_of_lt hgt), ← hold]
    exact Function.update_of_ne (fun heq => Nat.ne_of_gt hgt (congrArg Fin.val heq)) _ _

theorem Lists.bound {t : Table n α} {xs : List α} (h : t.Lists xs) {i : Nat} {x : α}
    (hi : xs[i]? = some x) : t.Bound i x := by
  have hlt := (List.getElem?_eq_some_iff.mp hi).1
  rw [Bound, h.slots i (Nat.lt_of_lt_of_le hlt h.fits), hi]

theorem Lists.not_bound {t : Table n α} {xs : List α} (h : t.Lists xs) {i : Int}
    (hi : ¬(0 ≤ i ∧ i < xs.length)) (x : α) : ¬t.Bound i x := by
  intro hbound
  by_cases hin : 0 ≤ i ∧ i < n
  · obtain ⟨k, rfl⟩ := Int.eq_ofNat_of_zero_le hin.1
    have hk := h.slots k (by omega)
    rw [Bound, hk, List.getElem?_eq_none (by omega)] at hbound
    cases hbound
  · rw [Bound, slot_of_not_mem hin] at hbound
    cases hbound

/-! ## Write-once tables -/

/-- The table with an empty slot bound. -/
def bindOnce (t : Table n α) (i : Int) (x : α) : Option (Table n α) :=
  match t.slot i with
  | some none => t.bind i x
  | _ => none

theorem slot_isSome {t : Table n α} {i : Int} (h : 0 ≤ i ∧ i < n) : ∃ entry, t.slot i = some entry :=
  ⟨_, dif_pos h⟩

theorem mem_of_slot {t : Table n α} {i : Int} {entry : Option α} (h : t.slot i = some entry) :
    0 ≤ i ∧ i < n := by
  by_contra hout
  rw [slot_of_not_mem hout] at h
  cases h

/-- Binding changes one slot. -/
theorem slot_bind {t t' : Table n α} {i : Int} {x : α} (h : t.bind i x = some t') (j : Int) :
    t'.slot j = if j = i then some (some x) else t.slot j := by
  unfold bind at h
  split at h
  · rename_i hi
    obtain rfl := Option.some.inj h
    by_cases hj : 0 ≤ j ∧ j < n
    · simp only [slot, dif_pos hj]
      by_cases heq : j = i
      · subst heq
        rw [if_pos rfl, Function.update_self]
      · rw [if_neg heq, Function.update_of_ne]
        intro hfin
        have := congrArg Fin.val hfin
        simp only at this
        omega
    · rw [if_neg (by rintro rfl; exact hj hi), slot_of_not_mem hj, slot_of_not_mem hj]
  · cases h

theorem bindOnce_of_empty {t : Table n α} {i : Int} (h : t.slot i = some none) (x : α) :
    ∃ t', t.bindOnce i x = some t' ∧ t.bind i x = some t' := by
  refine ⟨_, ?_, dif_pos (mem_of_slot h)⟩
  rw [bindOnce, h]
  exact dif_pos (mem_of_slot h)

theorem bindOnce_of_bound {t : Table n α} {i : Int} {y : α} (h : t.Bound i y) (x : α) :
    t.bindOnce i x = none := by
  rw [bindOnce, h]

theorem bindOnce_of_not_mem {t : Table n α} {i : Int} (h : ¬(0 ≤ i ∧ i < n)) (x : α) :
    t.bindOnce i x = none := by
  rw [bindOnce, slot_of_not_mem h]

/-- Every slot holds the first thing of the history for it. -/
def Records (t : Table n α) (history : List (Int × α)) : Prop :=
  ∀ i : Int, 0 ≤ i ∧ i < n → t.slot i = some (history.lookup i)

theorem empty_records : (empty : Table n α).Records [] := fun _ hi => slot_empty hi

theorem lookup_snoc {history : List (Int × α)} {i : Int} {x : α} (j : Int) :
    (history ++ [(i, x)]).lookup j =
      (history.lookup j).or (if j = i then some x else none) := by
  rw [List.lookup_append, List.lookup_cons]
  by_cases h : j = i
  · simp [h]
  · have hne : (j == i) = false := beq_eq_false_iff_ne.mpr h
    simp [h, hne]

/-- What is asked for goes on record, bound or refused. -/
theorem Records.bindOnce {t : Table n α} {history : List (Int × α)} (h : t.Records history)
    (i : Int) (x : α) : ((t.bindOnce i x).getD t).Records (history ++ [(i, x)]) := by
  intro j hj
  rw [lookup_snoc]
  by_cases hi : 0 ≤ i ∧ i < n
  · cases hold : history.lookup i with
    | none =>
      obtain ⟨t', honce, hbind⟩ := bindOnce_of_empty ((h i hi).trans (congrArg some hold)) x
      rw [honce, Option.getD_some, slot_bind hbind, h j hj]
      by_cases heq : j = i
      · subst heq
        simp [hold]
      · simp [heq]
    | some y =>
      rw [bindOnce_of_bound ((h i hi).trans (congrArg some hold)), Option.getD_none, h j hj]
      by_cases heq : j = i
      · subst heq
        simp [hold]
      · simp [heq]
  · have hne : j ≠ i := by
      rintro rfl
      exact hi hj
    rw [bindOnce_of_not_mem hi, Option.getD_none, h j hj]
    simp [hne]

/-- What is bound stays bound, whatever happens afterwards. -/
theorem Records.bound_append {t t' : Table n α} {history later : List (Int × α)}
    (h : t.Records history) (h' : t'.Records (history ++ later)) {i : Int} {x : α}
    (hbound : t.Bound i x) : t'.Bound i x := by
  have hi := mem_of_slot hbound
  have hlookup : history.lookup i = some x := Option.some.inj ((h i hi).symm.trans hbound)
  rw [Bound, h' i hi, List.lookup_append, hlookup]
  rfl

end Table
