import PsxRecomp.Lib.Words

/-!
# `Lib/Bytes.lean` — a word as its four bytes

`byteOf` commutes with the bitwise operators and turns shifts by whole bytes into shifts of the index,
so that what a mask-and-shift merge does can be said byte by byte.
-/

set_option autoImplicit false

namespace Words

open BitVec

/-- Byte `j` of a word, from the bottom -/
def byteOf (x : BitVec 32) (j : Nat) : BitVec 8 := (x >>> (8 * j)).setWidth 8

section
variable (x y : BitVec 32) {j k : Nat}

theorem getLsbD_byteOf {i : Nat} (hi : i < 8) : (byteOf x j).getLsbD i = x.getLsbD (8 * j + i) := by
  simp [byteOf, getLsbD_ushiftRight, hi]

variable {x y} in
/-- Two words with the same four bytes are equal. -/
theorem eq_of_byteOf (h : ∀ j < 4, byteOf x j = byteOf y j) : x = y := by
  apply eq_of_getLsbD_eq
  intro i hi
  have hbit := congrArg (fun b => b.getLsbD (i % 8)) (h (i / 8) (by omega))
  simp only [getLsbD_byteOf _ (Nat.mod_lt i (show 8 > 0 by decide)), Nat.div_add_mod] at hbit
  exact hbit

theorem byteOf_of_ge (hj : 4 ≤ j) : byteOf x j = 0#8 := by
  apply eq_of_getLsbD_eq
  intro i hi
  rw [getLsbD_byteOf x hi, getLsbD_of_ge _ _ (by omega), getLsbD_zero]

theorem byteOf_or : byteOf (x ||| y) j = byteOf x j ||| byteOf y j := by
  simp [byteOf, ushiftRight_or_distrib, setWidth_or]

theorem byteOf_and : byteOf (x &&& y) j = byteOf x j &&& byteOf y j := by
  simp [byteOf, ushiftRight_and_distrib, setWidth_and]

variable {x} in
theorem byteOf_not (hj : j < 4) : byteOf (~~~x) j = ~~~byteOf x j := by
  apply eq_of_getLsbD_eq
  intro i hi
  rw [getLsbD_byteOf _ hi, getLsbD_not, getLsbD_not, getLsbD_byteOf _ hi]
  simp [hi, show 8 * j + i < 32 by omega]

theorem byteOf_ushiftRight : byteOf (x >>> (8 * k)) j = byteOf x (j + k) := by
  rw [byteOf, byteOf, ← shiftRight_add, Nat.mul_add, Nat.add_comm]

theorem byteOf_shiftLeft (hj : j < 4) :
    byteOf (x <<< (8 * k)) j = if j < k then 0#8 else byteOf x (j - k) := by
  apply eq_of_getLsbD_eq
  intro i hi
  rw [getLsbD_byteOf _ hi, getLsbD_shiftLeft]
  split_ifs with hlt
  · simp [show 8 * j + i < 8 * k by omega]
  · rw [getLsbD_byteOf x hi, show 8 * j + i - 8 * k = 8 * (j - k) + i by omega]
    simp [show 8 * j + i < 32 by omega, show ¬ 8 * j + i < 8 * k by omega]

theorem byteOf_setWidth_of_ge {w : Nat} (x : BitVec w) (hj : w ≤ 8 * j) : byteOf (x.setWidth 32) j = 0#8 := by
  apply eq_of_getLsbD_eq
  intro i hi
  rw [getLsbD_byteOf _ hi, getLsbD_setWidth, getLsbD_of_ge x _ (by omega)]
  simp

theorem byteOf_narrow {n : Nat} (hj : j < 4) (hn : j < n) :
    byteOf ((x.setWidth (8 * n)).setWidth 32) j = byteOf x j := by
  apply eq_of_getLsbD_eq
  intro i hi
  rw [getLsbD_byteOf _ hi, getLsbD_byteOf _ hi, getLsbD_setWidth, getLsbD_setWidth]
  simp [show 8 * j + i < 8 * n by omega, show 8 * j + i < 32 by omega]

end

theorem byteOf_insert {old v m : BitVec 32} {n k j : Nat} (hj : j < 4)
    (hm : ∀ i < 4, byteOf m i = if i < n then 0xFF#8 else 0#8) :
    byteOf ((old &&& ~~~(m <<< (8 * k))) ||| ((v.setWidth (8 * n)).setWidth 32 <<< (8 * k))) j =
      if k ≤ j ∧ j < k + n then byteOf v (j - k) else byteOf old j := by
  have hff : ~~~0xFF#8 = 0#8 := rfl
  have hzero : ~~~0#8 = BitVec.allOnes 8 := rfl
  rw [byteOf_or, byteOf_and, byteOf_not hj, byteOf_shiftLeft _ hj, byteOf_shiftLeft _ hj]
  by_cases hlow : j < k
  · rw [if_pos hlow, if_pos hlow, if_neg (by omega), hzero, and_allOnes, or_zero]
  · rw [if_neg hlow, if_neg hlow, hm _ (by omega)]
    by_cases hin : j - k < n
    · rw [if_pos hin, if_pos (by omega), hff, and_zero, zero_or, byteOf_narrow _ (by omega) hin]
    · rw [if_neg hin, if_neg (by omega), byteOf_setWidth_of_ge _ (by omega), hzero, and_allOnes,
        or_zero]

theorem byteOf_leWord (bytes : Nat → BitVec 8) (off : Nat) {j : Nat} (hj : j < 4) :
    byteOf (leWord bytes off) j = bytes (off + j) := by
  have hlow : ∀ b : BitVec 8, byteOf (b.setWidth 32) 0 = b := by
    intro b
    simp [byteOf]
  have hhigh : ∀ (b : BitVec 8) (i : Nat), 0 < i → byteOf (b.setWidth 32) i = 0#8 := by
    intro b i hi
    apply eq_of_getLsbD_eq
    intro k hk
    rw [getLsbD_byteOf _ hk, getLsbD_setWidth, getLsbD_of_ge b _ (by omega)]
    simp
  have hshift : ∀ (b : BitVec 8) (k : Nat), byteOf (b.setWidth 32 <<< (8 * k)) j =
      if j = k then b else 0#8 := by
    intro b k
    rw [byteOf_shiftLeft _ hj]
    rcases Nat.lt_trichotomy j k with hlt | rfl | hgt
    · rw [if_pos hlt, if_neg (by omega)]
    · rw [if_neg (by omega), if_pos rfl, Nat.sub_self, hlow]
    · rw [if_neg (by omega), if_neg (by omega), hhigh b _ (by omega)]
  have h0 := hshift (bytes off) 0
  have h1 := hshift (bytes (off + 1)) 1
  have h2 := hshift (bytes (off + 2)) 2
  have h3 := hshift (bytes (off + 3)) 3
  rw [Nat.mul_zero, shiftLeft_zero] at h0
  rw [leWord, byteOf_or, byteOf_or, byteOf_or, h0, h1, h2, h3]
  interval_cases j <;> simp

end Words
