-- SUMMARY: The architectural table walk for 48-bit addresses and the 4 KB granule.
import Mathlib.Algebra.Group.Nat.Defs

/-!
# The table walk

What the processor makes of tables in memory, written from the translation
regime the boot code selects and not from the code that builds the tables.
Memory is given by its 64-bit words.
-/

namespace PiVOS

/-- The size of the region a descriptor of a level stands for. -/
def regionSize (level : Nat) : Nat := 2 ^ (39 - 9 * level)

/-- The number, among all slots of a level, of the slot an address goes through. -/
def slotNumber (level va : Nat) : Nat := va / regionSize level

structure Translation where
  pa : Nat
  /-- The place in `MAIR_EL1` of the attributes. -/
  attrIndx : Nat
deriving DecidableEq

/-- The output address of a block or page descriptor: bits 47 down to those the
region itself takes. -/
def outputAddress (level entry : Nat) : Nat :=
  entry / regionSize level % 2 ^ (9 + 9 * level) * regionSize level

/-- The table a table descriptor leads to. -/
def nextTable (entry : Nat) : Nat := entry / 2 ^ 12 % 2 ^ 36 * 2 ^ 12

/-- What a block or page descriptor gives for an address of its region. -/
def translate (level entry va : Nat) : Translation :=
  { pa := outputAddress level entry + va % regionSize level, attrIndx := entry / 2 ^ 2 % 2 ^ 3 }

/-- The walk from the table at `table` on, over `levels` levels. Bit 0 of a
descriptor makes it valid, bit 1 tells a table from a block; level 3 has only
pages and level 0 no blocks. -/
def walkFrom (mem : Nat → Nat) : (levels level table va : Nat) → Option Translation
  | 0, _, _, _ => none
  | levels + 1, level, table, va =>
    let entry := mem (table / 8 + slotNumber level va % 512)
    if entry % 2 = 0 then none
    else if entry / 2 % 2 = 1 then
      if level = 3 then some (translate level entry va)
      else walkFrom mem levels (level + 1) (nextTable entry) va
    else if level = 1 ∨ level = 2 then some (translate level entry va)
    else none

/-- The walk from the level 0 table at `root`. -/
def walk (mem : Nat → Nat) (root va : Nat) : Option Translation := walkFrom mem 4 0 root va

/-! ## On the way -/

/-- The descriptor that ends the walk, with its level. -/
def walkEntryFrom (mem : Nat → Nat) : (levels level table va : Nat) → Option (Nat × Nat)
  | 0, _, _, _ => none
  | levels + 1, level, table, va =>
    let entry := mem (table / 8 + slotNumber level va % 512)
    if entry % 2 = 0 then none
    else if entry / 2 % 2 = 1 then
      if level = 3 then some (level, entry)
      else walkEntryFrom mem levels (level + 1) (nextTable entry) va
    else if level = 1 ∨ level = 2 then some (level, entry)
    else none

def walkEntry (mem : Nat → Nat) (root va : Nat) : Option (Nat × Nat) := walkEntryFrom mem 4 0 root va

theorem walkFrom_eq_map (mem : Nat → Nat) (levels level table va : Nat) :
    walkFrom mem levels level table va =
      (walkEntryFrom mem levels level table va).map fun (level, e) => translate level e va := by
  induction levels generalizing level table with
  | zero => rfl
  | succ levels ih =>
    simp only [walkFrom, walkEntryFrom, ih]
    split
    · rfl
    · split
      · split <;> rfl
      · split <;> rfl

theorem walk_eq_map (mem : Nat → Nat) (root va : Nat) :
    walk mem root va = (walkEntry mem root va).map fun (level, e) => translate level e va :=
  walkFrom_eq_map mem 4 0 root va

/-- The table that the descent for an address comes to `levels` levels further down. -/
def walkTable (mem : Nat → Nat) : (levels level table va : Nat) → Option Nat
  | 0, _, table, _ => some table
  | levels + 1, level, table, va =>
    let entry := mem (table / 8 + slotNumber level va % 512)
    if entry % 2 = 1 ∧ entry / 2 % 2 = 1 then walkTable mem levels (level + 1) (nextTable entry) va
    else none

end PiVOS
