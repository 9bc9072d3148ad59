import Mathlib.Data.BitVec
import Mathlib.Tactic.IntervalCases
import Mathlib.Tactic.Tauto

/-!
# `Lib/Words.lean` — the machine-word facts that generated arithmetic rests on

Facts about fixed-width words that Mathlib does not state.
-/

set_option autoImplicit false

namespace Words

open BitVec Bool

theorem setWidth_signExtend {u v w : Nat} (h : u ≤ v) (x : BitVec w) :
    (x.signExtend v).setWidth u = x.signExtend u := by
  ext i hi
  have hv : i < v := by omega
  simp [getElem_signExtend, hv]

theorem setWidth_setWidth_self {v w : Nat} (h : w ≤ v) (x : BitVec w) :
    (x.setWidth v).setWidth w = x := by
  rw [setWidth_setWidth_of_le _ h, setWidth_eq]

theorem setWidth_setWidth_low {k : Nat} {m : BitVec 32} (hm : m.toNat = 2 ^ k - 1) (hk : k ≤ 32)
    (x : BitVec 32) : (x.setWidth k).setWidth 32 = x &&& m := by
  have hlt : x.toNat % 2 ^ k < 2 ^ 32 :=
    lt_of_lt_of_le (Nat.mod_lt _ (Nat.two_pow_pos k)) (Nat.pow_le_pow_right (by decide) hk)
  apply eq_of_toNat_eq
  rw [toNat_and, hm, Nat.and_two_pow_sub_one_eq_mod, toNat_setWidth, toNat_setWidth,
    Nat.mod_eq_of_lt hlt]

theorem setWidth_signExtend_self {v w : Nat} (h : w ≤ v) (x : BitVec w) :
    (x.signExtend v).setWidth w = x := by
  apply eq_of_getLsbD_eq
  intro i hi
  have hv : i < v := by omega
  simp only [getLsbD_setWidth, getLsbD_signExtend, hi, hv, decide_true, Bool.true_and,
    if_true]

/-! ## Words as unsigned numbers, in order -/

instance instLinearOrder (w : Nat) : LinearOrder (BitVec w) where
  le_refl x := Nat.le_refl x.toNat
  le_trans _ _ _ h₁ h₂ := Nat.le_trans h₁ h₂
  le_antisymm _ _ h₁ h₂ := eq_of_toNat_eq (Nat.le_antisymm h₁ h₂)
  le_total x y := Nat.le_total x.toNat y.toNat
  lt_iff_le_not_ge _ _ := Nat.lt_iff_le_and_not_ge
  toDecidableLE := inferInstance
  toDecidableLT := inferInstance
  toDecidableEq := inferInstance

def leWord (bytes : Nat → BitVec 8) (off : Nat) : BitVec 32 :=
  (bytes off).setWidth 32 ||| (bytes (off + 1)).setWidth 32 <<< 8 |||
    (bytes (off + 2)).setWidth 32 <<< 16 ||| (bytes (off + 3)).setWidth 32 <<< 24

/-! ## Bytes of a word -/

theorem and_three_le (a : BitVec 32) : (a &&& 3#32).toNat ≤ 3 := by
  exact Nat.and_le_right

theorem sub_and_three_le (a : BitVec 32) : (3#32 - (a &&& 3#32)).toNat ≤ 3 := by
  have h := and_three_le a
  rw [toNat_sub_of_le (by simpa [le_def] using h)]
  exact Nat.sub_le _ _

theorem and_three_cases (a : BitVec 32) :
    a &&& 3#32 = 0#32 ∨ a &&& 3#32 = 1#32 ∨ a &&& 3#32 = 2#32 ∨ a &&& 3#32 = 3#32 := by
  have hle := and_three_le a
  have h : (a &&& 3#32).toNat = 0 ∨ (a &&& 3#32).toNat = 1 ∨ (a &&& 3#32).toNat = 2 ∨
      (a &&& 3#32).toNat = 3 := by omega
  simpa [← toNat_inj] using h

theorem and_or_eq_iff {w : Nat} (x a b v : BitVec w) :
    x &&& a ||| v = x &&& b ||| v ↔ x &&& (a ^^^ b) &&& ~~~v = 0#w := by
  rw [eq_of_getLsbD_eq_iff, eq_of_getLsbD_eq_iff]
  refine forall₂_congr fun i hi => ?_
  simp only [getLsbD_or, getLsbD_and, getLsbD_xor, getLsbD_not, hi, decide_true, Bool.true_and,
    getLsbD_zero]
  cases x.getLsbD i <;> cases a.getLsbD i <;> cases b.getLsbD i <;> cases v.getLsbD i <;> decide

theorem or_and_not_of_disjoint {w : Nat} {x m : BitVec w} (h : x &&& m = 0#w) :
    (x ||| m) &&& ~~~m = x := by
  apply eq_of_getLsbD_eq
  intro i hi
  have hb := congrArg (fun z => z.getLsbD i) h
  simp only [getLsbD_and, getLsbD_zero] at hb
  simp only [getLsbD_and, getLsbD_or, getLsbD_not, hi, decide_true,
    Bool.true_and]
  revert hb
  cases x.getLsbD i <;> cases m.getLsbD i <;> decide

theorem and_not_of_disjoint {w : Nat} (x y : BitVec w) {a b : BitVec w} (h : a &&& b = 0#w) :
    x &&& a &&& ~~~(y &&& b) = x &&& a := by
  apply eq_of_getLsbD_eq
  intro i hi
  have hb := congrArg (fun z => z.getLsbD i) h
  simp only [getLsbD_and, getLsbD_zero] at hb
  simp only [getLsbD_and, getLsbD_not, hi, decide_true, Bool.true_and]
  revert hb
  cases x.getLsbD i <;> cases y.getLsbD i <;> cases a.getLsbD i <;> cases b.getLsbD i <;> decide

/-! ## Addition through 64 bits -/

section
variable (x y : BitVec 32)

theorem saddOverflow_signExtend64 : (x.signExtend 64).saddOverflow (y.signExtend 64) = false := by
  have hx := x.toInt_lt
  have hx' := x.le_toInt
  have hy := y.toInt_lt
  have hy' := y.le_toInt
  simp only [saddOverflow, toInt_signExtend_of_le (show 32 ≤ 64 by decide),
    or_eq_false_iff, decide_eq_false_iff_not]
  omega

theorem toInt_add64 : (x.signExtend 64 + y.signExtend 64).toInt = x.toInt + y.toInt := by
  rw [toInt_add_of_not_saddOverflow (by simp [saddOverflow_signExtend64]),
    toInt_signExtend_of_le (by decide), toInt_signExtend_of_le (by decide)]

theorem setWidth_add64 : (x.signExtend 64 + y.signExtend 64).setWidth 32 = x + y := by
  rw [setWidth_add _ _ (by decide), setWidth_signExtend_self (by decide),
    setWidth_signExtend_self (by decide)]

/-- The overflow probe through a wider type -/
theorem add64_out_of_range :
    ((x.signExtend 64 + y.signExtend 64).slt (BitVec.signExtend 64 0x80000000#32) ||
      (BitVec.signExtend 64 0x7FFFFFFF#32).slt (x.signExtend 64 + y.signExtend 64))
      = x.saddOverflow y := by
  have hlo : (signExtend 64 0x80000000#32).toInt = -2 ^ 31 := by decide
  have hhi : (signExtend 64 0x7FFFFFFF#32).toInt = 2 ^ 31 - 1 := by decide
  rw [Bool.eq_iff_iff]
  simp only [BitVec.slt, toInt_add64, hlo, hhi, saddOverflow, or_eq_true,
    decide_eq_true_eq]
  omega

end

/-! ## Products through 64 bits -/

theorem smulOverflow_signExtend64 (x y : BitVec 32) :
    (x.signExtend 64).smulOverflow (y.signExtend 64) = false := by
  have hx1 := x.toInt_lt
  have hx2 := x.le_toInt
  have hy1 := y.toInt_lt
  have hy2 := y.le_toInt
  have hxy : (x.toInt * y.toInt).natAbs ≤ 2 ^ 31 * 2 ^ 31 := by
    rw [Int.natAbs_mul]
    exact Nat.mul_le_mul (by omega) (by omega)
  simp only [smulOverflow, toInt_signExtend_of_le (show 32 ≤ 64 by decide),
    or_eq_false_iff, decide_eq_false_iff_not]
  omega

theorem setWidth_sshiftRight_high (x : BitVec 64) :
    (x.sshiftRight 32).setWidth 32 = (x >>> 32).setWidth 32 := by
  apply eq_of_getLsbD_eq
  intro i hi
  simp only [getLsbD_setWidth, hi, decide_true, Bool.true_and, getLsbD_sshiftRight,
    getLsbD_ushiftRight]
  have h1 : ¬ 64 ≤ i := by omega
  have h2 : 32 + i < 64 := by omega
  simp [h1, h2]

/-! ## Remainder by multiplication -/

theorem sub_tmod_bounds (a b : Int) :
    (0 ≤ a → 0 ≤ a - a.tmod b ∧ a - a.tmod b ≤ a) ∧
    (a ≤ 0 → a ≤ a - a.tmod b ∧ a - a.tmod b ≤ 0) := by
  have hn : (a.tmod b).natAbs ≤ a.natAbs := by
    rw [Int.natAbs_tmod]
    exact Nat.mod_le _ _
  constructor
  · intro h0
    have h1 := Int.tmod_nonneg b h0
    omega
  · intro h0
    have h1 := Int.tmod_nonneg b (show 0 ≤ -a by omega)
    rw [Int.neg_tmod] at h1
    omega

section
variable {w : Nat} {x y : BitVec w} (h : ¬ (x = BitVec.intMin w ∧ y = -1#w))
include h

theorem toInt_sdiv_mul_toInt : (x.sdiv y).toInt * y.toInt = x.toInt - x.toInt.tmod y.toInt := by
  have hd : (x.sdiv y).toInt = x.toInt.tdiv y.toInt :=
    toInt_sdiv_of_ne_or_ne _ _ (by tauto)
  have := Int.tdiv_mul_add_tmod x.toInt y.toInt
  rw [hd]
  omega

theorem smulOverflow_sdiv : (x.sdiv y).smulOverflow y = false := by
  have hb := sub_tmod_bounds x.toInt y.toInt
  have h1 := x.toInt_lt
  have h2 := x.le_toInt
  simp only [smulOverflow, toInt_sdiv_mul_toInt h, or_eq_false_iff,
    decide_eq_false_iff_not]
  omega

theorem toInt_sdiv_mul : (x.sdiv y * y).toInt = x.toInt - x.toInt.tmod y.toInt := by
  rw [toInt_mul_of_not_smulOverflow (by simp [smulOverflow_sdiv h]), toInt_sdiv_mul_toInt h]

theorem ssubOverflow_sdiv_mul : x.ssubOverflow (x.sdiv y * y) = false := by
  have h1 := (x.srem y).toInt_lt
  have h2 := (x.srem y).le_toInt
  rw [toInt_srem] at h1 h2
  simp only [ssubOverflow, toInt_sdiv_mul h, or_eq_false_iff, decide_eq_false_iff_not]
  omega

/-- The remainder computed as `n - (n / d) * d` neither overflows nor differs from the operator. -/
theorem sub_sdiv_mul : x - x.sdiv y * y = x.srem y := by
  apply eq_of_toInt_eq
  rw [toInt_sub_of_not_ssubOverflow (by simp [ssubOverflow_sdiv_mul h]), toInt_sdiv_mul h,
    toInt_srem]
  omega

end

theorem sub_udiv_mul {w : Nat} (x y : BitVec w) : x - x / y * y = x % y := by
  have h : x = x / y * y + x % y := by
    apply eq_of_toNat_eq
    have hdm := Nat.div_add_mod' x.toNat y.toNat
    simp [toNat_add, toNat_mul, toNat_udiv, toNat_umod, Nat.mod_add_mod, hdm, toNat_mod_cancel]
  exact sub_eq_of_eq_add' h

/-! ## Regions of an address -/

theorem toNat_and_low29 (x : BitVec 32) : (x &&& 0x1FFFFFFF#32).toNat = x.toNat % 2 ^ 29 := by
  exact Nat.and_two_pow_sub_one_eq_mod _ 29

theorem toNat_and_field (x : BitVec 32) {m : BitVec 32} (lo len : Nat)
    (hm : m.toNat = (2 ^ len - 1) <<< lo) :
    (x &&& m).toNat = x.toNat / 2 ^ lo % 2 ^ len * 2 ^ lo := by
  rw [toNat_and, hm, ← Nat.shiftRight_eq_div_pow, ← Nat.shiftLeft_eq]
  apply Nat.eq_of_testBit_eq
  intro i
  simp only [Nat.testBit_and, Nat.testBit_shiftLeft, Nat.testBit_two_pow_sub_one,
    Nat.testBit_mod_two_pow, Nat.testBit_shiftRight]
  by_cases h : lo ≤ i
  · rw [Nat.add_sub_cancel' h]
    simp [h, Bool.and_comm]
  · simp [h]

theorem toNat_and_high4 (x : BitVec 32) :
    (x &&& 0xF0000000#32).toNat = x.toNat / 2 ^ 28 * 2 ^ 28 := by
  rw [toNat_and_field x 28 4 rfl, Nat.mod_eq_of_lt (by omega)]

theorem toNat_or_high4 (x : BitVec 32) {y : BitVec 32} (hy : y.toNat < 2 ^ 28) :
    ((x &&& 0xF0000000#32) ||| y).toNat = x.toNat / 2 ^ 28 * 2 ^ 28 + y.toNat := by
  rw [toNat_or, toNat_and_high4, ← Nat.shiftLeft_eq, ← Nat.shiftLeft_add_eq_or_of_lt hy]

end Words
