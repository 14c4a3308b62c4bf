-- SUMMARY: Arrays of words that hold several fields each, changed field by field.
import Mathlib.Data.BitVec
import Mathlib.Data.Nat.Bitwise

/-!
# Packed fields

An array of words of `n` bits with `per` fields of `w` bits in each, the lowest
field first. A field is changed by reading its word, clearing the field's bits with
a shifted mask and putting in the shifted value; an access outside the array has no
result.
-/

namespace Packed

variable {n m w per : Nat}

/-! ## One word -/

/-- The word with the bits under the shifted mask replaced. -/
def replaceBits (word mask value : BitVec n) (shift : Nat) : BitVec n :=
  (word &&& ~~~(mask <<< shift)) ||| (value <<< shift)

theorem getLsbD_replaceBits (word : BitVec n) {value : BitVec n} (hvalue : value.toNat < 2 ^ w)
    (shift : Nat) {b : Nat} (hb : b < n) :
    (replaceBits word (BitVec.ofNat n (2 ^ w - 1)) value shift).getLsbD b =
      if shift ≤ b ∧ b < shift + w then value.getLsbD (b - shift) else word.getLsbD b := by
  have hmask : ∀ i, i < n → (BitVec.ofNat n (2 ^ w - 1)).getLsbD i = decide (i < w) := fun i hi => by
    rw [BitVec.getLsbD_ofNat, Nat.testBit_two_pow_sub_one, decide_eq_true hi, Bool.true_and]
  have hhigh : ∀ i, w ≤ i → value.getLsbD i = false := fun i hi =>
    Nat.testBit_lt_two_pow (hvalue.trans_le (Nat.pow_le_pow_right (by decide) hi))
  unfold replaceBits
  rw [BitVec.getLsbD_or, BitVec.getLsbD_and, BitVec.getLsbD_not, BitVec.getLsbD_shiftLeft,
    BitVec.getLsbD_shiftLeft, hmask _ (by omega)]
  by_cases hlow : b < shift
  · simp [hb, hlow, Nat.not_le.mpr hlow]
  · by_cases hin : b < shift + w
    · have hoff : b - shift < w := by omega
      simp [hb, hlow, hin, hoff, Nat.le_of_not_lt hlow]
    · have hoff : ¬b - shift < w := by omega
      simp [hb, hlow, hin, hoff, hhigh _ (Nat.le_of_not_lt hoff)]

/-- Different fields of one word have no bit in common. -/
theorem apart_of_ne {i j : Nat} (h : i ≠ j) {b : Nat} (hb : b < w) :
    ¬(i * w ≤ j * w + b ∧ j * w + b < i * w + w) := by
  rcases Nat.lt_or_gt_of_ne h with hlt | hgt
  · have := Nat.mul_le_mul_right w (Nat.succ_le_of_lt hlt)
    rw [Nat.succ_mul] at this
    omega
  · have := Nat.mul_le_mul_right w (Nat.succ_le_of_lt hgt)
    rw [Nat.succ_mul] at this
    omega

/-- Replacing one field of a word sets it and leaves the others alone. -/
theorem extract_replaceBits (word : BitVec n) {value : BitVec n} (hvalue : value.toNat < 2 ^ w)
    (i : Nat) {j : Nat} (hj : j * w + w ≤ n) :
    (replaceBits word (BitVec.ofNat n (2 ^ w - 1)) value (i * w)).extractLsb' (j * w) w =
      if j = i then value.setWidth w else word.extractLsb' (j * w) w := by
  refine BitVec.eq_of_getLsbD_eq fun b hb => ?_
  rw [BitVec.getLsbD_extractLsb', getLsbD_replaceBits _ hvalue _ (by omega)]
  by_cases h : j = i
  · subst h
    rw [if_pos ⟨by omega, by omega⟩, if_pos rfl, BitVec.getLsbD_setWidth, Nat.add_sub_cancel_left]
  · rw [if_neg (apart_of_ne (Ne.symm h) hb), if_neg h, BitVec.getLsbD_extractLsb']

/-! ## Arrays -/

/-- The array with bits of word `i` replaced. -/
def update (words : Vector (BitVec n) m) (i shift : Nat) (mask value : BitVec n) :
    Option (Vector (BitVec n) m) :=
  if h : i < m then some (words.set i (replaceBits words[i] mask value shift)) else none

/-- Field `k` of the array. -/
def field (w per : Nat) (words : Vector (BitVec n) m) (k : Nat) : BitVec w :=
  (words[k / per]?.getD 0#n).extractLsb' (k % per * w) w

theorem field_eq {words : Vector (BitVec n) m} {k : Nat} (hk : k / per < m) :
    field w per words k = words[k / per].extractLsb' (k % per * w) w := by
  rw [field, Vector.getElem?_eq_getElem hk, Option.getD_some]

/-- Changing field `k` sets it and leaves every other field alone. -/
theorem update_field (hper : 0 < per) (hfit : per * w ≤ n) (words : Vector (BitVec n) m) {k : Nat}
    (hk : k / per < m) {value : BitVec n} (hvalue : value.toNat < 2 ^ w) :
    ∃ words', update words (k / per) (k % per * w) (BitVec.ofNat n (2 ^ w - 1)) value = some words' ∧
      ∀ j, j / per < m →
        field w per words' j = if j = k then value.setWidth w else field w per words j := by
  refine ⟨_, dif_pos hk, fun j hj => ?_⟩
  have hplace : j % per * w + w ≤ n := by
    have := Nat.mul_le_mul_right w (Nat.succ_le_of_lt (Nat.mod_lt j hper))
    rw [Nat.succ_mul] at this
    omega
  rw [field_eq hj, field_eq hj, Vector.getElem_set]
  by_cases hword : k / per = j / per
  · rw [if_pos hword, extract_replaceBits _ hvalue _ hplace]
    by_cases hjk : j = k
    · rw [if_pos (by rw [hjk]), if_pos hjk]
    · have hmod : j % per ≠ k % per := fun hmod => hjk (by
        rw [← Nat.div_add_mod j per, ← Nat.div_add_mod k per, hword, hmod])
      rw [if_neg hmod, if_neg hjk]
      simp only [hword]
  · have hjk : j ≠ k := by
      rintro rfl
      exact hword rfl
    rw [if_neg hword, if_neg hjk]

/-- When the fields fill their words, an array is what its fields are. -/
theorem ext_field (w per : Nat) (hper : 0 < per) (hfull : per * w = n)
    {words words' : Vector (BitVec n) m}
    (h : ∀ k, k / per < m → field w per words k = field w per words' k) : words = words' := by
  refine Vector.ext fun i hi => BitVec.eq_of_getLsbD_eq fun b hb => ?_
  have hw : 0 < w := Nat.pos_of_ne_zero fun hw => by
    rw [hw, Nat.mul_zero] at hfull
    omega
  have hplace : b / w < per := Nat.div_lt_of_lt_mul (by rwa [Nat.mul_comm, hfull])
  have hdiv : (i * per + b / w) / per = i := by
    rw [Nat.mul_comm, Nat.mul_add_div hper, Nat.div_eq_of_lt hplace, Nat.add_zero]
  have hmod : (i * per + b / w) % per = b / w := by
    rw [Nat.mul_comm, Nat.mul_add_mod, Nat.mod_eq_of_lt hplace]
  have hk : (i * per + b / w) / per < m := by rwa [hdiv]
  have hbit := congrArg (fun x => x.getLsbD (b % w)) (h (i * per + b / w) hk)
  simp only [field_eq hk, BitVec.getLsbD_extractLsb', Nat.mod_lt b hw, decide_true, Bool.true_and,
    hmod, Nat.div_add_mod'] at hbit
  simpa only [hdiv] using hbit

end Packed
