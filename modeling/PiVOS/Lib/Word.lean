-- SUMMARY: Words read from the most significant bit: runs of bits, leading zeros, rounding up to a power of two.
import Mathlib.Data.Nat.Bitwise
import Mathlib.Data.BitVec
import Mathlib.Tactic.Ring

/-!
# Words as rows of flags

Facts about fixed-width words whose bits are numbered from the most significant
one, as a bitmap that grows to the right numbers them, and about the usual
mask-based rounding to a power of two.
-/

namespace Word

variable {w : Nat}

/-! ## Runs of bits -/

/-- The mask of the `number` bits that start `offset` places from the top. -/
def runMask (w number offset : Nat) : BitVec w :=
  (BitVec.allOnes w <<< (w - number)) >>> offset

theorem getMsbD_runMask {number offset i : Nat} (hn : number ≤ w) (hi : i < w) :
    (runMask w number offset).getMsbD i = decide (offset ≤ i ∧ i < offset + number) := by
  unfold runMask
  rw [BitVec.getMsbD_ushiftRight, BitVec.getMsbD_shiftLeft, BitVec.getMsbD_allOnes,
    Bool.eq_iff_iff]
  by_cases h : i < offset
  · simp [h]
  · simp [h, hi]; omega

theorem eq_of_getMsbD {x y : BitVec w} (h : ∀ i < w, x.getMsbD i = y.getMsbD i) : x = y :=
  BitVec.eq_of_getMsbD_eq h

theorem eq_zero_iff {x : BitVec w} : x = 0#w ↔ ∀ i < w, x.getMsbD i = false := by
  constructor
  · rintro rfl i _
    simp
  · intro h
    exact eq_of_getMsbD fun i hi => by simp [h i hi]

/-- A word has no bit in common with a run mask when all bits of the run are clear. -/
theorem and_runMask_eq_zero {x : BitVec w} {number offset : Nat} (h : number + offset ≤ w) :
    x &&& runMask w number offset = 0#w ↔
      ∀ i, offset ≤ i → i < offset + number → x.getMsbD i = false := by
  rw [eq_zero_iff]
  constructor
  · intro hx i hlo hhi
    have := hx i (by omega)
    rw [BitVec.getMsbD_and, getMsbD_runMask (by omega) (by omega)] at this
    simpa [hlo, hhi] using this
  · intro hx i hi
    rw [BitVec.getMsbD_and, getMsbD_runMask (by omega) hi]
    by_cases hr : offset ≤ i ∧ i < offset + number
    · simp [hx i hr.1 hr.2]
    · simp [hr]

/-! ## Leading zeros -/

/-- The number of leading zeros of a nonzero word is the place of its first set bit. -/
theorem getMsbD_clz {x : BitVec w} (h : x ≠ 0#w) :
    x.clz.toNat < w ∧ x.getMsbD x.clz.toNat = true := by
  have hw : 0 < w := by
    rcases Nat.eq_zero_or_pos w with rfl | hw
    · exact absurd (BitVec.of_length_zero) h
    · exact hw
  have hlt : x.clz.toNat < w := by
    have := BitVec.clz_lt_iff_ne_zero.mpr h
    simpa [BitVec.lt_def, Nat.mod_eq_of_lt Nat.lt_two_pow_self] using this
  refine ⟨hlt, ?_⟩
  rw [BitVec.getMsbD_eq_getLsbD]
  simpa [hlt] using BitVec.getLsbD_true_clz_of_ne_zero hw h

theorem getMsbD_of_lt_clz {x : BitVec w} {i : Nat} (h : i < x.clz.toNat) : x.getMsbD i = false := by
  rw [BitVec.getMsbD_eq_getLsbD]
  by_cases hi : i < w
  · have hlt : x.toNat < 2 ^ (w - x.clz.toNat) := BitVec.toNat_lt_two_pow_sub_clz
    have hbit : x.getLsbD (w - 1 - i) = false := by
      refine Nat.testBit_lt_two_pow (hlt.trans_le ?_)
      exact Nat.pow_le_pow_right (by decide) (by omega)
    simp [hbit]
  · simp [hi]

/-! ## Rounding to a power of two -/

/-- `(addr + align - 1) & ~(align - 1)`, in words of `w` bits. -/
def alignUp (w addr align : Nat) : Nat :=
  ((BitVec.ofNat w addr + BitVec.ofNat w align - 1#w) &&& ~~~(BitVec.ofNat w align - 1#w)).toNat

theorem toNat_ofNat_two_pow_sub_one {w j : Nat} (h : j < w) :
    (BitVec.ofNat w (2 ^ j) - 1#w).toNat = 2 ^ j - 1 := by
  have hpow : 2 ^ j < 2 ^ w := Nat.pow_lt_pow_right (by decide) h
  have hpos : 0 < 2 ^ j := Nat.two_pow_pos j
  have hle : 1#w ≤ BitVec.ofNat w (2 ^ j) := by
    rw [BitVec.le_def, BitVec.toNat_ofNat, BitVec.toNat_ofNat, Nat.mod_eq_of_lt hpow,
      Nat.mod_eq_of_lt (by omega)]
    exact hpos
  rw [BitVec.toNat_sub_of_le hle, BitVec.toNat_ofNat, BitVec.toNat_ofNat, Nat.mod_eq_of_lt hpow,
    Nat.mod_eq_of_lt (by omega)]

/-- Clearing the low `j` bits rounds down to a multiple of `2 ^ j`. -/
theorem toNat_and_not_low {j : Nat} (x : BitVec w) (h : j < w) :
    (x &&& ~~~(BitVec.ofNat w (2 ^ j) - 1#w)).toNat = x.toNat / 2 ^ j * 2 ^ j := by
  have hlow : ∀ i, (BitVec.ofNat w (2 ^ j) - 1#w).getLsbD i = decide (i < j) := fun i => by
    rw [BitVec.getLsbD, toNat_ofNat_two_pow_sub_one h, Nat.testBit_two_pow_sub_one]
  have hbit : ∀ i, x.toNat.testBit i = x.getLsbD i := fun _ => rfl
  apply Nat.eq_of_testBit_eq
  intro i
  rw [Nat.testBit_mul_two_pow, Nat.testBit_div_two_pow, hbit,
    show (x &&& ~~~(BitVec.ofNat w (2 ^ j) - 1#w)).toNat.testBit i
      = (x &&& ~~~(BitVec.ofNat w (2 ^ j) - 1#w)).getLsbD i from rfl,
    BitVec.getLsbD_and, BitVec.getLsbD_not, hlow]
  by_cases hij : i < j
  · simp [hij]
  · by_cases hiw : i < w
    · simp [hij, hiw, Nat.sub_add_cancel (Nat.le_of_not_lt hij), Nat.le_of_not_lt hij]
    · simp [hiw, hij, Nat.sub_add_cancel (Nat.le_of_not_lt hij), BitVec.getLsbD_of_ge x i (by omega)]

/-- Rounding up is exact as long as the word does not overflow, and otherwise
what is left of the sum is rounded down. -/
theorem alignUp_two_pow {addr j : Nat} (h : j < w) :
    alignUp w addr (2 ^ j) = (addr + 2 ^ j - 1) % 2 ^ w / 2 ^ j * 2 ^ j := by
  have hpow : 2 ^ j < 2 ^ w := Nat.pow_lt_pow_right (by decide) h
  have hpos : 0 < 2 ^ j := Nat.two_pow_pos j
  have hsum : (BitVec.ofNat w addr + BitVec.ofNat w (2 ^ j) - 1#w).toNat
      = (addr + 2 ^ j - 1) % 2 ^ w := by
    rw [show BitVec.ofNat w addr + BitVec.ofNat w (2 ^ j) - 1#w
      = BitVec.ofNat w addr + (BitVec.ofNat w (2 ^ j) - 1#w) by ring, BitVec.toNat_add, toNat_ofNat_two_pow_sub_one h, BitVec.toNat_ofNat, Nat.mod_add_mod]
    congr 1
    omega
  rw [alignUp, toNat_and_not_low _ h, hsum]

end Word
