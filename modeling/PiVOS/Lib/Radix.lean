-- SUMMARY: Radix trees given by what stands at each level and number, and their lookup.
import Mathlib.Data.Nat.Init

/-!
# Radix trees

A radix tree of fan-out `fan`, by its parts: `node l n` is the `n`-th node of
level `l`, whose slots are the numbers `n * fan`, `n * fan + 1`, … of that level;
slot `m` of level `l` holds a leaf, or leads to node `m` of level `l + 1`, or is
empty. A key gives the slot it passes on every level.
-/

structure Radix (α β : Type) where
  node : Nat → Nat → Option α
  leaf : Nat → Nat → Option β

namespace Radix

variable {α β : Type} {fan : Nat}

/-- Nodes and leaves hang from a node, and below a leaf there is nothing. -/
structure WellFormed (fan : Nat) (r : Radix α β) : Prop where
  parent : ∀ {l n a}, r.node (l + 1) n = some a → ∃ a', r.node l (n / fan) = some a'
  leaf_node : ∀ {l m e}, r.leaf l m = some e → ∃ a, r.node l (m / fan) = some a
  leaf_end : ∀ {l m e}, r.leaf l m = some e → r.node (l + 1) m = none

/-! ## Lookup -/

/-- The slots a key passes on the levels up to `depth`: each is in the node the
one above leads to. -/
def Path (fan depth : Nat) (slot : Nat → Nat) : Prop :=
  ∀ l, l < depth → slot (l + 1) / fan = slot l

/-- Paths that part stay apart. -/
theorem Path.eq_of_le {depth : Nat} {slot slot' : Nat → Nat} (h : Path fan depth slot)
    (h' : Path fan depth slot') {k l : Nat} (hk : k ≤ l) (hl : l ≤ depth) (heq : slot l = slot' l) :
    slot k = slot' k := by
  induction l with
  | zero =>
    obtain rfl := Nat.le_zero.mp hk
    exact heq
  | succ l ih =>
    rcases Nat.lt_or_eq_of_le hk with hlt | rfl
    · exact ih (Nat.le_of_lt_succ hlt) (Nat.le_of_lt hl) (by rw [← h l hl, ← h' l hl, heq])
    · exact heq

/-- The leaf on a path, looked for in `levels` levels from `l` on. -/
def find (r : Radix α β) (slot : Nat → Nat) : Nat → Nat → Option (Nat × β)
  | 0, _ => none
  | levels + 1, l =>
    match r.leaf l (slot l) with
    | some e => some (l, e)
    | none =>
      match r.node (l + 1) (slot l) with
      | some _ => find r slot levels (l + 1)
      | none => none

section Find

variable {r : Radix α β} {depth : Nat} {slot : Nat → Nat}

/-- Whatever stands on a path further down, the slots above it lead there. -/
theorem WellFormed.node_above (h : r.WellFormed fan) (hpath : Path fan depth slot) {l : Nat}
    (hl : l ≤ depth) {a : α} (hnode : r.node (l + 1) (slot l) = some a) {k : Nat} (hk : k ≤ l) :
    ∃ a', r.node (k + 1) (slot k) = some a' := by
  induction l generalizing a with
  | zero =>
    obtain rfl := Nat.le_zero.mp hk
    exact ⟨a, hnode⟩
  | succ l ih =>
    rcases Nat.lt_or_eq_of_le hk with hlt | rfl
    · obtain ⟨a', ha'⟩ := h.parent hnode
      rw [hpath l hl] at ha'
      exact ih (Nat.le_of_lt hl) ha' (Nat.le_of_lt_succ hlt)
    · exact ⟨a, hnode⟩

theorem WellFormed.node_above_leaf (h : r.WellFormed fan) (hpath : Path fan depth slot) {l : Nat}
    (hl : l ≤ depth) {e : β} (hleaf : r.leaf l (slot l) = some e) {k : Nat} (hk : k < l) :
    ∃ a, r.node (k + 1) (slot k) = some a := by
  obtain ⟨l, rfl⟩ := Nat.exists_eq_succ_of_ne_zero (Nat.ne_of_gt (Nat.zero_lt_of_lt hk))
  obtain ⟨a, ha⟩ := h.leaf_node hleaf
  rw [hpath l hl] at ha
  exact h.node_above hpath (Nat.le_of_lt hl) ha (Nat.le_of_lt_succ hk)

/-- A lookup finds just the leaf on the path. -/
theorem WellFormed.find_eq_some (h : r.WellFormed fan) (hpath : Path fan depth slot)
    {levels k l : Nat} (hdepth : k + levels ≤ depth + 1) {e : β} :
    r.find slot levels k = some (l, e) ↔
      k ≤ l ∧ l < k + levels ∧ r.leaf l (slot l) = some e := by
  induction levels generalizing k with
  | zero =>
    constructor
    · rintro ⟨⟩
    · rintro ⟨hkl, hlt, -⟩
      omega
  | succ levels ih =>
    rw [find]
    cases hleaf : r.leaf k (slot k) with
    | some e' =>
      constructor
      · rintro ⟨⟩
        exact ⟨Nat.le_refl _, by omega, hleaf⟩
      · rintro ⟨hkl, hlevels, hl⟩
        rcases Nat.lt_or_eq_of_le hkl with hlt | rfl
        · obtain ⟨a, ha⟩ := h.node_above_leaf hpath (by omega) hl hlt
          rw [h.leaf_end hleaf] at ha
          cases ha
        · rw [hleaf] at hl
          cases hl
          rfl
    | none =>
      have hne : r.leaf l (slot l) = some e → k ≠ l := by
        rintro hl rfl
        rw [hleaf] at hl
        cases hl
      cases hnode : r.node (k + 1) (slot k) with
      | some a =>
        simp only
        rw [ih (by omega)]
        constructor
        · rintro ⟨hkl, hlt, hl⟩
          exact ⟨by omega, by omega, hl⟩
        · rintro ⟨hkl, hlt, hl⟩
          have := hne hl
          exact ⟨by omega, by omega, hl⟩
      | none =>
        simp only
        constructor
        · rintro ⟨⟩
        · rintro ⟨hkl, hlevels, hl⟩
          obtain ⟨a, ha⟩ := h.node_above_leaf hpath (by omega) hl (Nat.lt_of_le_of_ne hkl (hne hl))
          rw [hnode] at ha
          cases ha

/-- What a lookup finds depends on the leaves on the path only. -/
theorem WellFormed.find_congr {r' : Radix α β} (h : r.WellFormed fan) (h' : r'.WellFormed fan)
    (hpath : Path fan depth slot) {levels k : Nat} (hdepth : k + levels ≤ depth + 1)
    (hleaf : ∀ l, r'.leaf l (slot l) = r.leaf l (slot l)) :
    r'.find slot levels k = r.find slot levels k := by
  refine Option.ext fun ⟨l, e⟩ => ?_
  rw [h'.find_eq_some hpath hdepth, h.find_eq_some hpath hdepth, hleaf]

end Find

/-! ## Growing a tree -/

/-- The tree with a new node. -/
def addNode (r : Radix α β) (l n : Nat) (a : α) : Radix α β :=
  { r with node := fun l' n' => if l' = l ∧ n' = n then some a else r.node l' n' }

/-- The tree with a leaf in a slot. -/
def setLeaf (r : Radix α β) (l m : Nat) (e : β) : Radix α β :=
  { r with leaf := fun l' m' => if l' = l ∧ m' = m then some e else r.leaf l' m' }

section Grow

variable {r : Radix α β} {l n m : Nat} {a : α} {e : β}

@[simp] theorem addNode_leaf : (r.addNode l n a).leaf = r.leaf := rfl

@[simp] theorem setLeaf_node : (r.setLeaf l m e).node = r.node := rfl

theorem addNode_node_self : (r.addNode l n a).node l n = some a := if_pos ⟨rfl, rfl⟩

theorem addNode_node_of_ne {l' n' : Nat} (h : ¬(l' = l ∧ n' = n)) :
    (r.addNode l n a).node l' n' = r.node l' n' := if_neg h

theorem setLeaf_leaf_self : (r.setLeaf l m e).leaf l m = some e := if_pos ⟨rfl, rfl⟩

theorem setLeaf_leaf_of_ne {l' m' : Nat} (h : ¬(l' = l ∧ m' = m)) :
    (r.setLeaf l m e).leaf l' m' = r.leaf l' m' := if_neg h

/-- Every old node is there still. -/
theorem addNode_node_of_some {l' n' : Nat} {a' : α} (hfree : r.node l n = none)
    (h : r.node l' n' = some a') : (r.addNode l n a).node l' n' = some a' := by
  rw [addNode_node_of_ne, h]
  rintro ⟨rfl, rfl⟩
  rw [hfree] at h
  cases h

theorem addNode_node_eq_some {l' n' : Nat} {a' : α} (h : (r.addNode l n a).node l' n' = some a') :
    (l' = l ∧ n' = n ∧ a' = a) ∨ r.node l' n' = some a' := by
  by_cases heq : l' = l ∧ n' = n
  · obtain ⟨rfl, rfl⟩ := heq
    rw [addNode_node_self] at h
    exact .inl ⟨rfl, rfl, (Option.some.inj h).symm⟩
  · rw [addNode_node_of_ne heq] at h
    exact .inr h

theorem setLeaf_leaf_eq_some {l' m' : Nat} {e' : β} (h : (r.setLeaf l m e).leaf l' m' = some e') :
    (l' = l ∧ m' = m ∧ e' = e) ∨ r.leaf l' m' = some e' := by
  by_cases heq : l' = l ∧ m' = m
  · obtain ⟨rfl, rfl⟩ := heq
    rw [setLeaf_leaf_self] at h
    exact .inl ⟨rfl, rfl, (Option.some.inj h).symm⟩
  · rw [setLeaf_leaf_of_ne heq] at h
    exact .inr h

theorem WellFormed.addNode (h : r.WellFormed fan) {a' : α} (hparent : r.node l (m / fan) = some a')
    (hleaf : r.leaf l m = none) (hfree : r.node (l + 1) m = none) :
    (r.addNode (l + 1) m a).WellFormed fan where
  parent hnode := by
    rcases addNode_node_eq_some hnode with ⟨hl, rfl, rfl⟩ | hnode
    · obtain rfl := Nat.succ.inj hl
      exact ⟨a', addNode_node_of_some hfree hparent⟩
    · obtain ⟨a'', ha''⟩ := h.parent hnode
      exact ⟨a'', addNode_node_of_some hfree ha''⟩
  leaf_node hl := by
    obtain ⟨a'', ha''⟩ := h.leaf_node hl
    exact ⟨a'', addNode_node_of_some hfree ha''⟩
  leaf_end {l' m' e'} hl := by
    rw [addNode_node_of_ne, h.leaf_end hl]
    rintro ⟨heq, rfl⟩
    obtain rfl := Nat.succ.inj heq
    rw [addNode_leaf, hleaf] at hl
    cases hl

theorem WellFormed.setLeaf (h : r.WellFormed fan) (hnode : r.node l (m / fan) = some a)
    (hend : r.node (l + 1) m = none) : (r.setLeaf l m e).WellFormed fan where
  parent := h.parent
  leaf_node hl := by
    rcases setLeaf_leaf_eq_some hl with ⟨rfl, rfl, rfl⟩ | hl
    · exact ⟨a, hnode⟩
    · exact h.leaf_node hl
  leaf_end hl := by
    rcases setLeaf_leaf_eq_some hl with ⟨rfl, rfl, rfl⟩ | hl
    · exact hend
    · exact h.leaf_end hl

/-- A node that is not there has neither leaves nor nodes below it. -/
theorem WellFormed.leaf_eq_none (h : r.WellFormed fan) (hnode : r.node l (m / fan) = none) :
    r.leaf l m = none := by
  cases hleaf : r.leaf l m with
  | none => rfl
  | some e =>
    obtain ⟨a, ha⟩ := h.leaf_node hleaf
    rw [hnode] at ha
    cases ha

theorem WellFormed.node_eq_none (h : r.WellFormed fan) (hnode : r.node l (n / fan) = none) :
    r.node (l + 1) n = none := by
  cases hbelow : r.node (l + 1) n with
  | none => rfl
  | some a =>
    obtain ⟨a', ha'⟩ := h.parent hbelow
    rw [hnode] at ha'
    cases ha'

end Grow

/-! ## Splitting leaves -/

/-- The tree without the leaf in a slot. -/
def removeLeaf (r : Radix α β) (l m : Nat) : Radix α β :=
  { r with leaf := fun l' m' => if l' = l ∧ m' = m then none else r.leaf l' m' }

/-- The tree with a leaf in every slot of a node. -/
def fillNode (r : Radix α β) (fan l n : Nat) (unit : Nat → β) : Radix α β :=
  { r with leaf := fun l' m => if l' = l ∧ m / fan = n then some (unit (m % fan)) else r.leaf l' m }

/-- The tree with a node of leaves in place of a leaf. -/
def splitLeaf (r : Radix α β) (fan l m : Nat) (a : α) (unit : Nat → β) : Radix α β :=
  ((r.removeLeaf l m).addNode (l + 1) m a).fillNode fan (l + 1) m unit

section Split

variable {r : Radix α β} {l n m : Nat} {a : α} {unit : Nat → β}

@[simp] theorem removeLeaf_node : (r.removeLeaf l m).node = r.node := rfl

@[simp] theorem fillNode_node : (r.fillNode fan l n unit).node = r.node := rfl

theorem removeLeaf_leaf_self : (r.removeLeaf l m).leaf l m = none := if_pos ⟨rfl, rfl⟩

theorem removeLeaf_leaf_of_ne {l' m' : Nat} (h : ¬(l' = l ∧ m' = m)) :
    (r.removeLeaf l m).leaf l' m' = r.leaf l' m' := if_neg h

theorem removeLeaf_leaf_eq_some {l' m' : Nat} {e : β} (h : (r.removeLeaf l m).leaf l' m' = some e) :
    ¬(l' = l ∧ m' = m) ∧ r.leaf l' m' = some e := by
  by_cases heq : l' = l ∧ m' = m
  · obtain ⟨rfl, rfl⟩ := heq
    rw [removeLeaf_leaf_self] at h
    cases h
  · rw [removeLeaf_leaf_of_ne heq] at h
    exact ⟨heq, h⟩

theorem fillNode_leaf_of_mem (h : m / fan = n) :
    (r.fillNode fan l n unit).leaf l m = some (unit (m % fan)) := if_pos ⟨rfl, h⟩

theorem fillNode_leaf_of_ne {l' : Nat} (h : ¬(l' = l ∧ m / fan = n)) :
    (r.fillNode fan l n unit).leaf l' m = r.leaf l' m := if_neg h

theorem fillNode_leaf_eq_some {l' : Nat} {e : β} (h : (r.fillNode fan l n unit).leaf l' m = some e) :
    (l' = l ∧ m / fan = n ∧ e = unit (m % fan)) ∨ r.leaf l' m = some e := by
  by_cases hin : l' = l ∧ m / fan = n
  · obtain ⟨rfl, hn⟩ := hin
    rw [fillNode_leaf_of_mem hn] at h
    exact .inl ⟨rfl, hn, (Option.some.inj h).symm⟩
  · rw [fillNode_leaf_of_ne hin] at h
    exact .inr h

/-- Slots that are neither the leaf's nor in its place keep what they have. -/
theorem splitLeaf_leaf_of_ne {l' m' : Nat} (h : ¬(l' = l ∧ m' = m))
    (hbelow : ¬(l' = l + 1 ∧ m' / fan = m)) :
    (r.splitLeaf fan l m a unit).leaf l' m' = r.leaf l' m' := by
  rw [splitLeaf, fillNode_leaf_of_ne hbelow, addNode_leaf, removeLeaf_leaf_of_ne h]

theorem WellFormed.removeLeaf (h : r.WellFormed fan) : (r.removeLeaf l m).WellFormed fan where
  parent := h.parent
  leaf_node hl := h.leaf_node (removeLeaf_leaf_eq_some hl).2
  leaf_end hl := h.leaf_end (removeLeaf_leaf_eq_some hl).2

theorem WellFormed.fillNode (h : r.WellFormed fan) (hnode : r.node l n = some a)
    (hend : ∀ m, m / fan = n → r.node (l + 1) m = none) : (r.fillNode fan l n unit).WellFormed fan where
  parent := h.parent
  leaf_node hl := by
    rcases fillNode_leaf_eq_some hl with ⟨rfl, hn, -⟩ | hl
    · exact ⟨a, by rw [hn, fillNode_node, hnode]⟩
    · exact h.leaf_node hl
  leaf_end hl := by
    rcases fillNode_leaf_eq_some hl with ⟨rfl, hn, -⟩ | hl
    · exact hend _ hn
    · exact h.leaf_end hl

end Split

end Radix
