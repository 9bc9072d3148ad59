import Mathlib.Tactic.Linarith
import Mathlib.Tactic.FieldSimp
import PsxRecomp.Lib.CInt
import PsxRecomp.Machine.GteCommands

/-!
# `Machine/GteDivide.lean` — the perspective division

`gte_divide` shifts both operands until the divisor has its highest bit set, takes a seed for the
reciprocal of the divisor from a table of 257 entries and improves it by one Newton step in fixed point.
-/

set_option autoImplicit false

namespace PsxRecomp.Divide

open CInt (Fits)

/-! ## 1. The table -/

/-- `xa` after `k` turns of the loop in `gte_init_div_table` -/
def seedAfter (i k : Nat) : Nat := ((divRound (.ofNat 32 (0x100 + i)))^[k] 512).toNat

/-- The loop stays within `uint32_t`, and the entry it leaves within `uint8_t`. -/
def SeedFits (i : Nat) : Prop :=
  (∀ k < 4, (0x100 + i) * seedAfter i k ≤ 1024 * 512 ∧
    seedAfter i k * (1024 * 512 - (0x100 + i) * seedAfter i k) < 2 ^ 32) ∧
  0x101 ≤ (seedAfter i 4 + 1) >>> 1 ∧ (seedAfter i 4 + 1) >>> 1 < 0x201

instance (i : Nat) : Decidable (SeedFits i) := inferInstanceAs (Decidable (_ ∧ _))

theorem seeds_fit : ∀ i < 0x100, SeedFits i := by decide +kernel

/-- `x` in `gte_calc_recip` -/
def seed (i : Nat) : Nat := 0x101 + (gteDivTable i).toNat

/-- Over the divisors an entry of the table is used for, divisor times seed is `2 ^ 24` up to 90000. -/
theorem seed_error : ∀ i < 0x101, 2 ^ 24 - 90000 ≤ (128 * (256 + i) - 64) * seed i ∧
    (128 * (256 + i) + 63) * seed i ≤ 2 ^ 24 + 90000 := by
  decide +kernel

/-! ## 2. The reciprocal -/

def seedIndex (divisor : BitVec 16) : Nat := ((divisor &&& 0x7FFF).toNat + 0x40) >>> 7

/-- What `gte_calc_recip` computes on the way, each an `int32_t` -/
def recipValues (divisor : BitVec 16) : List Int :=
  let x : Int := seed (seedIndex divisor)
  let tmp : Int := (divisor.toNat * -x + 0x80) >>> (8 : Nat)
  [x, divisor.toNat * -x, divisor.toNat * -x + 0x80, tmp, 131072 + tmp, x * (131072 + tmp),
    x * (131072 + tmp) + 0x80, gteCalcRecip divisor]

/-- The step squares the error of the seed, and rounds twice. -/
theorem newton_error {d x t r : Int} (hd : 0 ≤ d ∧ d < 2 ^ 16) (he : |d * x - 2 ^ 24| ≤ 90000)
    (ht : t = (d * -x + 0x80) >>> (8 : Nat)) (hr : r = (x * (131072 + t) + 0x80) >>> (8 : Nat)) :
    |r * d - 2 ^ 32| ≤ 2 ^ 18 := by
  rw [Int.shiftRight_eq_div_pow] at ht hr
  rw [mul_neg] at ht
  obtain ⟨he1, he2⟩ := abs_le.1 he
  have ht1 : d * x * (256 * t) ≤ d * x * (128 - d * x) :=
    mul_le_mul_of_nonneg_left (by omega) (by omega)
  have ht2 : d * x * (-127 - d * x) ≤ d * x * (256 * t) :=
    mul_le_mul_of_nonneg_left (by omega) (by omega)
  have hr1 : 256 * r * d ≤ (x * (131072 + t) + 128) * d :=
    mul_le_mul_of_nonneg_right (by omega) hd.1
  have hr2 : (x * (131072 + t) - 127) * d ≤ 256 * r * d :=
    mul_le_mul_of_nonneg_right (by omega) hd.1
  refine abs_le.2 ⟨?_, ?_⟩ <;> nlinarith

section
variable {d : BitVec 16} (hd : 2 ^ 15 ≤ d.toNat)
include hd

theorem seed_product :
    seedIndex d < 0x101 ∧ |(d.toNat * seed (seedIndex d) : Int) - 2 ^ 24| ≤ 90000 := by
  have hi : seedIndex d = (d.toNat % 2 ^ 15 + 64) / 128 := by
    rw [seedIndex, BitVec.toNat_and, show (0x7FFF : BitVec 16).toNat = 2 ^ 15 - 1 from rfl,
      Nat.and_two_pow_sub_one_eq_mod, Nat.shiftRight_eq_div_pow]
  have hlt : seedIndex d < 0x101 := by omega
  obtain ⟨hlo, hhi⟩ := seed_error _ hlt
  have h1 : (128 * (256 + seedIndex d) - 64) * seed (seedIndex d) ≤ d.toNat * seed (seedIndex d) :=
    Nat.mul_le_mul_right _ (by omega)
  have h2 : d.toNat * seed (seedIndex d) ≤ (128 * (256 + seedIndex d) + 63) * seed (seedIndex d) :=
    Nat.mul_le_mul_right _ (by omega)
  refine ⟨hlt, abs_le.2 ?_⟩
  zify at hlo hhi h1 h2
  constructor <;> omega

theorem recip_error : |gteCalcRecip d * d.toNat - 2 ^ 32| ≤ 2 ^ 18 := by
  refine newton_error ⟨by omega, by omega⟩ (seed_product hd).2 rfl ?_
  simp [gteCalcRecip, seed, seedIndex]

theorem recip_range : 0 ≤ gteCalcRecip d ∧ gteCalcRecip d < 2 ^ 18 := by
  obtain ⟨h1, h2⟩ := abs_le.1 (recip_error hd)
  constructor <;> nlinarith

theorem recipValues_fit : ∀ v ∈ recipValues d, Fits 32 v := by
  obtain ⟨h1, h2⟩ := abs_le.1 (seed_product hd).2
  obtain ⟨hr1, hr2⟩ := recip_range hd
  have hx : 257 ≤ seed (seedIndex d) ∧ seed (seedIndex d) ≤ 512 := by
    unfold seed
    omega
  have ht := Int.shiftRight_eq_div_pow (d.toNat * -(seed (seedIndex d) : Int) + 0x80) 8
  simp only [recipValues, List.forall_mem_cons, Fits]
  generalize (_ : Int) >>> (8 : Nat) = t at ht ⊢
  rw [mul_neg] at ht ⊢
  have hp : 0 ≤ (seed (seedIndex d) : Int) * (131072 + t) ∧
      (seed (seedIndex d) : Int) * (131072 + t) ≤ 512 * 70000 :=
    ⟨mul_nonneg (by omega) (by omega), mul_le_mul (by omega) (by omega) (by omega) (by omega)⟩
  refine ⟨?_, ?_, ?_, ?_, ?_, ?_, ?_, ?_, by simp⟩ <;> omega

end

/-! ## 3. The quotient -/

theorem clzBelow_spec (v : BitVec 16) (b : Nat) (hlt : v.toNat < 2 ^ b) (hne : v.toNat ≠ 0) :
    v.toNat * 2 ^ clzBelow v b < 2 ^ b ∧ 2 ^ b ≤ 2 * (v.toNat * 2 ^ clzBelow v b) := by
  induction b with
  | zero => omega
  | succ b ih =>
    by_cases h : 2 ^ b ≤ v.toNat
    · have hbit : v.getLsbD b = true := Nat.testBit_of_two_pow_le_and_two_pow_add_one_gt h hlt
      rw [clzBelow, if_pos hbit]
      omega
    · have hbit : v.getLsbD b = false := Nat.testBit_lt_two_pow (by omega)
      obtain ⟨h1, h2⟩ := ih (by omega)
      rw [clzBelow, hbit, if_neg Bool.false_ne_true, pow_succ, pow_succ, ← mul_assoc]
      omega

/-- The highest bit of a shifted divisor is set already. -/
theorem toNat_or_top {n : Nat} (h : 2 ^ 15 ≤ n) (hn : n < 2 ^ 16) :
    (BitVec.ofNat 16 n ||| 0x8000).toNat = n := by
  rw [BitVec.toNat_or, BitVec.toNat_ofNat, Nat.mod_eq_of_lt hn]
  refine Nat.eq_of_testBit_eq fun i => ?_
  rw [Nat.testBit_or, show (0x8000 : BitVec 16).toNat = 2 ^ 15 from rfl, Nat.testBit_two_pow]
  by_cases hi : 15 = i
  · simp [← hi, Nat.testBit_of_two_pow_le_and_two_pow_add_one_gt h hn]
  · simp [hi]

/-- An operand, shifted by the leading zeros of the divisor `sz3` -/
def scaled (v sz3 : BitVec 16) : Nat := v.toNat <<< gteClz16 sz3

/-- What `gte_divide` hands to `gte_calc_recip` -/
def normalised (sz3 : BitVec 16) : BitVec 16 := .ofNat 16 (scaled sz3 sz3) ||| 0x8000

/-- What `gte_divide` shifts right to its result -/
def product (h sz3 : BitVec 16) : Nat := scaled h sz3 * (gteCalcRecip (normalised sz3)).toNat + 32768

theorem divQuotient_eq (h sz3 : BitVec 16) :
    divQuotient h sz3 = (min (product h sz3 / 2 ^ 16) 0x1FFFF : Nat) := by
  simp only [divQuotient, product, normalised, scaled]
  split_ifs <;> omega

theorem divQuotient_mono {h h' : BitVec 16} (sz3 : BitVec 16) (hle : h.toNat ≤ h'.toNat) :
    divQuotient h sz3 ≤ divQuotient h' sz3 := by
  have hmul := Nat.mul_le_mul_right (gteCalcRecip (normalised sz3)).toNat
    (Nat.mul_le_mul_right (2 ^ gteClz16 sz3) hle)
  rw [← Nat.shiftLeft_eq, ← Nat.shiftLeft_eq] at hmul
  rw [divQuotient_eq, divQuotient_eq, product, product, scaled, scaled]
  omega

/-- The types are `uint32_t`, `uint16_t`, `int32_t`, `uint64_t` and `uint32_t`. -/
structure DivideFits (h sz3 : BitVec 16) : Prop where
  dividend : scaled h sz3 < 2 ^ 32
  divisor : scaled sz3 sz3 < 2 ^ 16
  index : seedIndex (normalised sz3) < 0x101
  values : ∀ v ∈ recipValues (normalised sz3), Fits 32 v
  recip : 0 ≤ gteCalcRecip (normalised sz3)
  sum : product h sz3 < 2 ^ 64
  result : product h sz3 >>> 16 < 2 ^ 32

section
variable {h sz3 : BitVec 16} (hlt : h.toNat < 2 * sz3.toNat)
include hlt

theorem toNat_normalised :
    (normalised sz3).toNat = scaled sz3 sz3 ∧ 2 ^ 15 ≤ (normalised sz3).toNat := by
  obtain ⟨h1, h2⟩ := clzBelow_spec sz3 16 sz3.isLt (by omega)
  rw [← gteClz16, ← Nat.shiftLeft_eq, ← scaled] at h1 h2
  have htop := toNat_or_top (n := scaled sz3 sz3) (by omega) h1
  rw [normalised, htop]
  exact ⟨rfl, by omega⟩

theorem scaled_lt : scaled h sz3 < 2 * scaled sz3 sz3 := by
  rw [scaled, scaled, Nat.shiftLeft_eq, Nat.shiftLeft_eq, ← mul_assoc]
  exact Nat.mul_lt_mul_of_pos_right hlt (Nat.two_pow_pos _)

theorem divideFits : DivideFits h sz3 := by
  obtain ⟨hn, htop⟩ := toNat_normalised hlt
  have hdiv := scaled_lt hlt
  obtain ⟨h0, hr⟩ := recip_range htop
  have hprod : product h sz3 ≤ 2 ^ 17 * 2 ^ 18 + 32768 :=
    Nat.add_le_add_right (Nat.mul_le_mul (by omega) (by omega)) _
  refine ⟨by omega, by omega, (seed_product htop).1, recipValues_fit htop, h0, by omega, ?_⟩
  omega

/-- The product with the dividend is rounded once more. -/
theorem scaled_error :
    |divQuotient h sz3 * scaled sz3 sz3 - scaled h sz3 * 65536| ≤ scaled sz3 sz3 + 4 * scaled h sz3 := by
  obtain ⟨hn, htop⟩ := toNat_normalised hlt
  obtain ⟨he1, he2⟩ := abs_le.1 (recip_error htop)
  have hdiv := scaled_lt hlt
  have h0 := Int.toNat_of_nonneg (recip_range htop).1
  rw [hn] at he1 he2
  have hq1 : 65536 * (product h sz3 / 2 ^ 16) ≤ product h sz3 := by omega
  have hq2 : product h sz3 ≤ 65536 * (product h sz3 / 2 ^ 16) + 65535 := by omega
  rw [divQuotient_eq]
  generalize product h sz3 / 2 ^ 16 = q at *
  rw [product] at hq1 hq2
  zify [h0] at hq1 hq2 hdiv
  have hn0 := Int.natCast_nonneg (scaled h sz3)
  have hd0 := Int.natCast_nonneg (scaled sz3 sz3)
  have h1 := mul_le_mul_of_nonneg_right hq1 hd0
  have h2 := mul_le_mul_of_nonneg_right hq2 hd0
  have h3 := mul_le_mul_of_nonneg_left he1 hn0
  have h4 := mul_le_mul_of_nonneg_left he2 hn0
  rw [abs_le]
  rcases min_choice q 0x1FFFF with hm | hm
  · rw [hm]
    constructor <;> linarith
  · have hc : 0x1FFFF * (scaled sz3 sz3 : Int) ≤ q * scaled sz3 sz3 :=
      mul_le_mul_of_nonneg_right (by omega) hd0
    rw [hm]
    push_cast
    constructor <;> linarith

theorem divQuotient_error : |(divQuotient h sz3 : ℚ) - h.toNat * 65536 / sz3.toNat| ≤
    1 + h.toNat * 65536 / sz3.toNat / 2 ^ 14 := by
  have hs : (0 : ℚ) < sz3.toNat := Nat.cast_pos.2 (by omega)
  have hp : (0 : ℚ) < 2 ^ gteClz16 sz3 := by positivity
  have he := scaled_error hlt
  rw [scaled, scaled, Nat.shiftLeft_eq, Nat.shiftLeft_eq, abs_le] at he
  have hq := And.intro (Int.cast_le (R := ℚ) |>.2 he.1) (Int.cast_le (R := ℚ) |>.2 he.2)
  push_cast at hq
  rw [abs_le]
  generalize (2 ^ gteClz16 sz3 : ℚ) = p at *
  constructor <;> field_simp <;> nlinarith

end

/-- **The perspective division.** It saturates, with the flag, from a quotient of two on. Below that
every intermediate result fits, the quotient is in error by at most one and a 2^14th of itself, and it
is monotone in the dividend. -/
theorem gteDivide_law (h sz3 : BitVec 16) :
    (∀ i < 0x100, SeedFits i) ∧
    (∀ s, (gteDivide h sz3).run s =
      if 2 * sz3.toNat ≤ h.toNat then (0x1FFFF, { s with FLAG := s.FLAG ||| 1#32 <<< flagDivOvf })
      else (divQuotient h sz3, s)) ∧
    (h.toNat < 2 * sz3.toNat → DivideFits h sz3 ∧ divQuotient h sz3 ≤ 0x1FFFF ∧
      |(divQuotient h sz3 : ℚ) - h.toNat * 65536 / sz3.toNat| ≤
        1 + h.toNat * 65536 / sz3.toNat / 2 ^ 14) ∧
    ∀ h' : BitVec 16, h.toNat ≤ h'.toNat → divQuotient h sz3 ≤ divQuotient h' sz3 := by
  refine ⟨seeds_fit, fun s => ?_, fun hlt => ⟨divideFits hlt, ?_, divQuotient_error hlt⟩,
    fun h' => divQuotient_mono sz3⟩
  · rw [mul_comm, gteDivide]
    split_ifs <;> rfl
  · rw [divQuotient_eq]
    omega

end PsxRecomp.Divide
