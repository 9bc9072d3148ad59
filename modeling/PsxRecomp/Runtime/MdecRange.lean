import PsxRecomp.Lib.CInt
import PsxRecomp.Lib.Runs
import PsxRecomp.Runtime.MdecPadding

/-!
# `Runtime/MdecRange.lean` — the macroblock decoder stays in range

`Runtime/Mdec.lean` computes with integers and with functions on `Fin 64`. The decoder of
`runtime/src/mdec.c` computes in `int`, stores in `int16_t` and indexes arrays of 64. Here is
`decode_rle_block` once more with every result and every index checked. A left shift is taken as the
multiplication it stands for, also of a negative number.

The bound that matters is that of the IDCT matrix, `SET_SCALE` shifts its entries to 13 bits: eight
products of a 15-bit coefficient and a 13-bit entry stay below 2^29, and a pass shifts the sum back to
15 bits.
-/

set_option autoImplicit false

namespace PsxRecomp.Mdec

open List Option BitVec CInt

open CInt (fit Fits fit_of_fits bind_of_eq)
open Ram (Byte)

/-! ## 1. The decoder, checked -/

/-- A coefficient, with `shift` for the fraction bits of its quantiser -/
def dequantChecked (ci q : Int) (shift : Nat) : Option Int := do
  let tmp ← if q ≠ 0 then do
      let product ← fit 32 (ci * q)
      let scaled ← fit 32 ((product >>> shift) * 16)
      fit 32 (scaled + bias ci)
    else do
      let product ← fit 32 (ci * 2)
      fit 32 (product * 16)
  fit 16 (clampInt tmp (-0x4000) 0x3FFF)

def acLoopChecked (quant : Fin 64 → Byte) (qscale : Nat) :
    List Half → Nat → Block → Option (Block × List Half)
  | [], _, b => some (b, [])
  | word :: rest, k, b =>
    if 63 ≤ k then some (b, word :: rest)
    else if word = 0xFE00#16 then some (b, rest)
    else
      let k' := k + (runLength word + 1)
      if k' < 64 then do
        let quantiser ← CInt.read quant k'
        let q ← fit 32 (qscale * quantiser.toNat)
        let v ← dequantChecked (coefficient word) q 3
        let linear ← zigzagToLinear[k']?
        let b' ← CInt.store b linear v
        acLoopChecked quant qscale rest k' b'
      else some (b, rest)

/-- `(sum + 0x4000) >> 15`, for row `col` of the block and row `x` of the matrix -/
def rowChecked (scale b : Block) (col x : Fin 8) : Option Int := do
  let sum ← CInt.sumOf 32 (fun u : Fin 8 => do
    let coefficient ← CInt.read b (col.val * 8 + u.val)
    let entry ← CInt.read scale (x.val * 8 + u.val)
    fit 32 (coefficient * entry)) (List.finRange 8)
  let rounded ← fit 32 (sum + 0x4000)
  return rounded >>> (15 : Nat)

/-- `for (col …) for (x …)` -/
def cells : List (Fin 8 × Fin 8) :=
  (List.finRange 8).flatMap fun col => (List.finRange 8).map fun x => (col, x)

/-- `idct_block`: the first pass must not lose bits in `tmp`. -/
def idctBlockChecked (scale b : Block) : Option Block := do
  let tmp ← CInt.fillAll (fun p : Fin 8 × Fin 8 => p.2.val * 8 + p.1.val)
    (fun p => do
      let v ← rowChecked scale b p.1 p.2
      fit 16 v) cells fun _ => 0
  CInt.fillAll (fun p : Fin 8 × Fin 8 => p.1.val * 8 + p.2.val)
    (fun p => do
      let v ← rowChecked scale tmp p.1 p.2
      fit 16 (mask9ClampS8 v)) cells b

/-- `decode_rle_block`; the inner `none` is the end of the input. -/
def decodeRleBlockChecked (t : Tables) (quant : Fin 64 → Byte) :
    List Half → Option (Option (Block × List Half))
  | [] => some none
  | first :: input => do
    let (word, rest) := skipPadding first input
    let quantiser ← CInt.read quant 0
    let dc ← dequantChecked (coefficient word) quantiser.toNat 0
    let b ← CInt.store (fun _ => 0) 0 dc
    let (b, rest) ← acLoopChecked quant (runLength word) rest 0 b
    let b ← idctBlockChecked t.scale b
    return some (b, rest)

/-- `append_color_macroblock`, with the two indices checked -/
def colorMacroblockChecked (f : Format) (cr cb y₀ y₁ y₂ y₃ : Block) : Option (List Byte) :=
  (List.finRange 16).foldlM (fun out py => (List.finRange 16).foldlM (fun out px => do
    let y := if 8 ≤ py.val then (if 8 ≤ px.val then y₃ else y₂) else (if 8 ≤ px.val then y₁ else y₀)
    let chroma := px.val / 2 + py.val / 2 * 8
    let luma ← CInt.read y (px.val % 8 + py.val % 8 * 8)
    let red ← CInt.read cr chroma
    let blue ← CInt.read cb chroma
    return out ++ rgbPixel f luma red blue) out) []

/-! ## 2. Dequantisation -/

def Dequantised (b : Block) : Prop := ∀ i, -0x4000 ≤ b i ∧ b i ≤ 0x3FFF

section
variable {ci q v : Int} {shift : Nat} {quant : Fin 64 → Byte} {t : Tables}

theorem fits32 (h : -0x7FFFFFFF ≤ v ∧ v ≤ 0x7FFFFFFF) : Fits 32 v := fits_of_le (by decide) h

theorem signX_of_fits (h : Fits 16 v) : signX 16 v = v := by
  obtain ⟨hlo, hhi⟩ := h
  unfold signX
  rw [toInt_ofInt]
  exact Int.bmod_eq_of_le (by push_cast; omega) (by push_cast; omega)

theorem coefficient_bounds (word : Half) : -512 ≤ coefficient word ∧ coefficient word ≤ 511 := by
  have h := le_two_mul_toInt (x := BitVec.ofInt 10 (word &&& 0x3FF#16).toNat)
  have h' := two_mul_toInt_lt (x := BitVec.ofInt 10 (word &&& 0x3FF#16).toNat)
  unfold coefficient signX
  omega

theorem clampInt_bounds {lo hi : Int} (h : lo ≤ hi) (v : Int) :
    lo ≤ clampInt v lo hi ∧ clampInt v lo hi ≤ hi := by
  unfold clampInt
  split_ifs <;> omega

theorem bias_bounds (ci : Int) : -8 ≤ bias ci ∧ bias ci ≤ 8 := by
  unfold bias
  split_ifs <;> omega

theorem dequant_bounds (ci q scaled : Int) :
    -0x4000 ≤ dequant ci q scaled ∧ dequant ci q scaled ≤ 0x3FFF := by
  unfold dequant
  generalize (if q ≠ 0 then scaled * 16 + bias ci else ci * 2 * 16) = tmp
  obtain ⟨hlo, hhi⟩ := clampInt_bounds (show (-0x4000 : Int) ≤ 0x3FFF by decide) tmp
  rw [signX_of_fits (fits_of_le (B := 0x4000) (by decide) ⟨hlo, by omega⟩)]
  exact ⟨hlo, hhi⟩

theorem dequantChecked_eq (hci : -512 ≤ ci ∧ ci ≤ 511) (hq : 0 ≤ q ∧ q ≤ 63 * 255)
    (hshift : shift = 0 ∨ shift = 3) :
    dequantChecked ci q shift = some (dequant ci q ((ci * q) >>> shift)) := by
  have hlo : -512 * q ≤ ci * q := Int.mul_le_mul_of_nonneg_right hci.1 hq.1
  have hhi : ci * q ≤ 511 * q := Int.mul_le_mul_of_nonneg_right hci.2 hq.1
  have hbias := bias_bounds ci
  have hproduct : -8225280 ≤ ci * q ∧ ci * q ≤ 8225280 := ⟨by omega, by omega⟩
  have hscaled : -8225280 ≤ (ci * q) >>> shift ∧ (ci * q) >>> shift ≤ 8225280 := by
    generalize ci * q = p at hproduct
    rw [Int.shiftRight_eq_div_pow]
    obtain rfl | rfl := hshift
    · rw [Nat.pow_zero, Int.natCast_one, Int.ediv_one]
      exact hproduct
    · norm_num
      omega
  have hcast (tmp : Int) : fit 16 (clampInt tmp (-0x4000) 0x3FFF) =
      some (signX 16 (clampInt tmp (-0x4000) 0x3FFF)) := by
    obtain ⟨hl, hh⟩ := clampInt_bounds (show (-0x4000 : Int) ≤ 0x3FFF by decide) tmp
    have hfits : Fits 16 (clampInt tmp (-0x4000) 0x3FFF) :=
      fits_of_le (B := 0x4000) (by decide) ⟨hl, by omega⟩
    rw [signX_of_fits hfits, fit_of_fits hfits]
  unfold dequantChecked dequant
  by_cases hzero : q = 0
  · rw [if_neg (not_not.mpr hzero), if_neg (not_not.mpr hzero),
      bind_of_eq (fit_of_fits (fits32 (by omega))), bind_of_eq (fit_of_fits (fits32 (by omega)))]
    exact hcast _
  · rw [if_pos hzero, if_pos hzero, bind_of_eq (fit_of_fits (fits32 (by omega))),
      bind_of_eq (fit_of_fits (fits32 (by omega))), bind_of_eq (fit_of_fits (fits32 (by omega)))]
    exact hcast _

theorem quantiser_bounds {qscale : Nat} (h : qscale ≤ 63) (byte : Byte) :
    0 ≤ (qscale : Int) * byte.toNat ∧ (qscale : Int) * byte.toNat ≤ 63 * 255 := by
  constructor
  · exact Int.mul_nonneg (Int.natCast_nonneg _) (Int.natCast_nonneg _)
  · exact Int.mul_le_mul (by omega) (by omega) (Int.natCast_nonneg _) (by decide)

theorem zigzagToLinear_of_lt {k : Nat} (h : k < 64) :
    zigzagToLinear[k]? = some (zigzagToLinear.getD k 0) := by
  have hlen : zigzagToLinear.length = 64 := rfl
  rw [getD_eq_getElem?_getD, List.getElem?_eq_getElem (by omega), getD_some]

theorem acLoopChecked_eq {qscale : Nat} (hscale : qscale ≤ 63) (input : List Half) (k : Nat)
    (b : Block) :
    acLoopChecked quant qscale input k b = some (acLoop quant qscale input k b) := by
  induction input generalizing k b with
  | nil => rfl
  | cons word rest ih =>
    rw [acLoopChecked, acLoop]
    split_ifs with hk hmark hlt
    · rfl
    · rfl
    · have hq := quantiser_bounds hscale (quant ⟨_, hlt⟩)
      have hfit := fit_of_fits (fits32 (v := qscale * (quant ⟨_, hlt⟩).toNat) ⟨by omega, by omega⟩)
      have hzigzag := zigzagToLinear_of_lt hlt
      rw [if_pos hlt]
      rw [bind_of_eq (read_of_lt hlt), bind_of_eq hfit,
        bind_of_eq (dequantChecked_eq (coefficient_bounds word) hq (.inr rfl)), bind_of_eq hzigzag,
        bind_of_eq (store_of_lt (Fin.isLt _)), ih]
    · dsimp only
      rw [if_neg hlt]

theorem acLoop_dequantised {qscale : Nat} (input : List Half) (k : Nat) {b : Block}
    (h : Dequantised b) : Dequantised (acLoop quant qscale input k b).1 := by
  induction input generalizing k b with
  | nil => exact h
  | cons word rest ih =>
    unfold acLoop
    split_ifs with hk hmark hlt
    · exact h
    · exact h
    · refine ih _ fun i => ?_
      by_cases hi : i = zigzagToLinear.getD (k + (runLength word + 1)) 0
      · rw [hi, Function.update_self]
        exact dequant_bounds ..
      · rw [Function.update_of_ne hi]
        exact h i
    · exact h

end

/-! ## 3. The two passes -/

/-- The matrix is one that `SET_SCALE` has stored. -/
def Scaled (scale : Block) : Prop := ∀ i, -4096 ≤ scale i ∧ scale i ≤ 4095

section
variable {scale b : Block}

theorem rowChecked_eq (hscale : Scaled scale) (hb : ∀ i, -0x4000 ≤ b i ∧ b i ≤ 0x4000)
    (col x : Fin 8) : rowChecked scale b col x = some (roundShift (dot scale b col x)) ∧
      -0x4000 ≤ roundShift (dot scale b col x) ∧ roundShift (dot scale b col x) ≤ 0x4000 := by
  have hterm (u : Fin 8) : -0x4000000 ≤
        b ⟨col.val * 8 + u.val, by omega⟩ * scale ⟨x.val * 8 + u.val, by omega⟩ ∧
      b ⟨col.val * 8 + u.val, by omega⟩ * scale ⟨x.val * 8 + u.val, by omega⟩ ≤ 0x4000000 := by
    have hs := hscale ⟨x.val * 8 + u.val, by omega⟩
    exact mul_bounds (a := 0x4000) (c := 4096) (hb _) ⟨hs.1, by omega⟩
  have hsum : sumOf 32 (fun u : Fin 8 => do
      let coefficient ← read b (col.val * 8 + u.val)
      let entry ← read scale (x.val * 8 + u.val)
      fit 32 (coefficient * entry)) (finRange 8) = some (dot scale b col x) := by
    refine sumOf_eq (B := 0x4000000) (fun u _ => ?_) (fun u _ => hterm u) (by simp)
    rw [bind_of_eq (read_of_lt (show col.val * 8 + u.val < 64 by omega)),
      bind_of_eq (read_of_lt (show x.val * 8 + u.val < 64 by omega))]
    have hu := hterm u
    exact fit_of_fits (fits32 ⟨by omega, by omega⟩)
  have hdot : -0x20000000 ≤ dot scale b col x ∧ dot scale b col x ≤ 0x20000000 :=
    sum_bounds (l := finRange 8) fun u _ => hterm u
  have hround : roundShift (dot scale b col x) = (dot scale b col x + 0x4000) / 0x8000 := by
    rw [roundShift, Int.shiftRight_eq_div_pow]
    rfl
  refine ⟨?_, by omega, by omega⟩
  rw [rowChecked, bind_of_eq hsum, bind_of_eq (fit_of_fits (fits32 ⟨by omega, by omega⟩))]
  rfl

theorem mem_cells (p : Fin 8 × Fin 8) : p ∈ cells := by
  simp [cells]

theorem mask9ClampS8_bounds (v : Int) : -128 ≤ mask9ClampS8 v ∧ mask9ClampS8 v ≤ 127 :=
  clampInt_bounds (by decide) _

theorem idctBlock_bounds (scale b : Block) (i : Fin 64) :
    -128 ≤ idctBlock scale b i ∧ idctBlock scale b i ≤ 127 := by
  obtain ⟨hlo, hhi⟩ := mask9ClampS8_bounds (roundShift (dot scale
    (fun i => signX 16 (roundShift (dot scale b ⟨i.val % 8, by omega⟩ ⟨i.val / 8, by omega⟩)))
    ⟨i.val / 8, by omega⟩ ⟨i.val % 8, by omega⟩))
  simp only [idctBlock]
  rw [signX_of_fits (fits_of_le (B := 0x80) (by decide) ⟨hlo, by omega⟩)]
  exact ⟨hlo, hhi⟩

theorem pass_eq (out : Fin 8 × Fin 8 → Fin 64) {finish : Int → Option Int} (value : Int → Int)
    (hscale : Scaled scale) (hb : ∀ i, -0x4000 ≤ b i ∧ b i ≤ 0x4000)
    (hfinish : ∀ v, -0x4000 ≤ v ∧ v ≤ 0x4000 → finish v = some (value v))
    {f : Block} (hf : ∀ col x, f (out (col, x)) = value (roundShift (dot scale b col x)))
    (hout : ∀ k, ∃ p, out p = k) (init : Block) :
    CInt.fillAll (fun p => (out p).val) (fun p => do
      let v ← rowChecked scale b p.1 p.2
      finish v) cells init = some f := by
  refine fillAll_eq (fun p _ => ⟨(out p).isLt, ?_⟩) (fun k => ?_) init
  · obtain ⟨hrow, hbounds⟩ := rowChecked_eq hscale hb p.1 p.2
    rw [bind_of_eq hrow, hfinish _ hbounds, Fin.eta, hf]
  · obtain ⟨p, hp⟩ := hout k
    exact ⟨p, mem_cells p, congrArg Fin.val hp⟩

theorem idctBlockChecked_eq (hscale : Scaled scale) (hb : Dequantised b) :
    idctBlockChecked scale b = some (idctBlock scale b) := by
  have hb' (i : Fin 64) : -0x4000 ≤ b i ∧ b i ≤ 0x4000 := ⟨(hb i).1, by have := (hb i).2; omega⟩
  have hcast {v : Int} (h : -0x4000 ≤ v ∧ v ≤ 0x4000) : fit 16 v = some (signX 16 v) := by
    have hfits : Fits 16 v := fits_of_le (by decide) h
    rw [fit_of_fits hfits, signX_of_fits hfits]
  -- row and column of a cell's number
  have hdiv (i j : Fin 8) (h : (i.val * 8 + j.val) / 8 < 8) :
      (⟨(i.val * 8 + j.val) / 8, h⟩ : Fin 8) = i := Fin.ext (by dsimp only; omega)
  have hmod (i j : Fin 8) (h : (i.val * 8 + j.val) % 8 < 8) :
      (⟨(i.val * 8 + j.val) % 8, h⟩ : Fin 8) = j := Fin.ext (by dsimp only; omega)
  let tmp : Block := fun i =>
    signX 16 (roundShift (dot scale b ⟨i.val % 8, by omega⟩ ⟨i.val / 8, by omega⟩))
  have hpass₁ := pass_eq (fun p => ⟨p.2.val * 8 + p.1.val, by omega⟩) (signX 16) (f := tmp) hscale hb'
    (fun v => hcast) (fun col x => by simp only [tmp, hdiv, hmod])
    (fun k => ⟨(⟨k.val % 8, by omega⟩, ⟨k.val / 8, by omega⟩), Fin.ext (by dsimp only; omega)⟩) fun _ => 0
  have htmp (i : Fin 64) : -0x4000 ≤ tmp i ∧ tmp i ≤ 0x4000 := by
    have h := (rowChecked_eq hscale hb' ⟨i.val % 8, by omega⟩ ⟨i.val / 8, by omega⟩).2
    have hfits : Fits 16 _ := fits_of_le (by decide) h
    simp only [tmp, signX_of_fits hfits]
    exact h
  have hpass₂ := pass_eq (fun p => ⟨p.1.val * 8 + p.2.val, by omega⟩)
    (fun v => signX 16 (mask9ClampS8 v)) (f := idctBlock scale b) hscale htmp
    (fun v _ => hcast (by have := mask9ClampS8_bounds v; omega))
    (fun col x => by simp only [idctBlock, hdiv, hmod]; rfl)
    (fun k => ⟨(⟨k.val / 8, by omega⟩, ⟨k.val % 8, by omega⟩), Fin.ext (by dsimp only; omega)⟩) b
  rw [idctBlockChecked, bind_of_eq hpass₁]
  exact hpass₂

end

/-! ## 4. Blocks -/

section
variable {t : Tables} {quant : Fin 64 → Byte} {input rest : List Half} {b : Block}

theorem dequantised_dc (v : Int) (h : -0x4000 ≤ v ∧ v ≤ 0x3FFF) :
    Dequantised (Function.update (fun _ => 0) 0 v) := by
  intro i
  by_cases hi : i = 0
  · rw [hi, Function.update_self]
    exact h
  · rw [Function.update_of_ne hi]
    decide

/-- No check fails, so the checked decoder is the decoder. -/
theorem decodeRleBlockChecked_eq (hscale : Scaled t.scale) (quant : Fin 64 → Byte)
    (input : List Half) : decodeRleBlockChecked t quant input = some (decodeRleBlock t quant input) := by
  cases input with
  | nil => rfl
  | cons first input =>
    rw [decodeRleBlockChecked, decodeRleBlock]
    generalize skipPadding first input = r
    obtain ⟨word, rest⟩ := r
    dsimp only
    have hq : 0 ≤ ((quant 0).toNat : Int) ∧ ((quant 0).toNat : Int) ≤ 63 * 255 := by
      omega
    have hdc := dequantChecked_eq (coefficient_bounds word) hq (.inl rfl)
    rw [Int.shiftRight_zero] at hdc
    have hdeq := dequantised_dc _ (dequant_bounds (coefficient word) (quant 0).toNat
      (coefficient word * (quant 0).toNat))
    have hread : read quant 0 = some (quant 0) := rfl
    have hstore (v : Int) : store (fun _ : Fin 64 => (0 : Int)) 0 v =
        some (Function.update (fun _ => 0) 0 v) := rfl
    rw [bind_of_eq hread, bind_of_eq hdc, bind_of_eq (hstore _),
      bind_of_eq (acLoopChecked_eq (show runLength word ≤ 63 from Nat.and_le_right) ..),
      bind_of_eq (idctBlockChecked_eq hscale (acLoop_dequantised rest 0 hdeq))]
    rfl

theorem decodeRleBlock_bounds (h : decodeRleBlock t quant input = some (b, rest)) (i : Fin 64) :
    -128 ≤ b i ∧ b i ≤ 127 := by
  cases input with
  | nil => cases h
  | cons first input =>
    simp only [decodeRleBlock, some.injEq, Prod.mk.injEq] at h
    rw [← h.1]
    exact idctBlock_bounds ..

theorem colorMacroblockChecked_eq (f : Format) (cr cb y₀ y₁ y₂ y₃ : Block) :
    colorMacroblockChecked f cr cb y₀ y₁ y₂ y₃ = some (colorMacroblock f cr cb y₀ y₁ y₂ y₃) := by
  unfold colorMacroblockChecked colorMacroblock
  rw [foldlM_append fun out py => foldlM_append (fun out px => ?_) _ out, nil_append]
  rw [bind_of_eq (read_of_lt (show px.val % 8 + py.val % 8 * 8 < 64 by omega)),
    bind_of_eq (read_of_lt (show px.val / 2 + py.val / 2 * 8 < 64 by omega)),
    bind_of_eq (read_of_lt (show px.val / 2 + py.val / 2 * 8 < 64 by omega))]
  rfl

/-- The bytes of a luma block, or of a macroblock of 256 pixels -/
def unitBytes (f : Format) : Nat := if f.depth < 2 then 64 else if f.depth = 3 then 512 else 768

theorem decodeUnit_length {f : Format} {bytes : List Byte}
    (h : decodeUnit t f input = some (bytes, rest)) : bytes.length = unitBytes f := by
  unfold decodeUnit at h
  unfold unitBytes
  split at h
  · simp only [map_eq_some_iff, Prod.exists, Prod.mk.injEq] at h
    obtain ⟨y, rest', -, rfl, -⟩ := h
    rw [if_pos ‹_›, lumaBlock, length_map, length_finRange]
  · simp only [decodeMacroblock, bind, bind_eq_some_iff, pure, some.injEq,
      Prod.mk.injEq, Prod.exists] at h
    obtain ⟨cr, i₁, -, cb, i₂, -, y₀, i₃, -, y₁, i₄, -, y₂, i₅, -, y₃, i₆, -, rfl, -⟩ := h
    rw [if_neg ‹_›, length_colorMacroblock]
    split <;> rfl

theorem decode_length (t : Tables) (f : Format) (input : List Half) :
    (decode t f input).length = decodeMacroblocks t f input * unitBytes f := by
  have hunits : ∀ (n : Nat) (input : List Half),
      (units t f n input).flatten.length = (units t f n input).length * unitBytes f := by
    intro n
    induction n with
    | zero => intro input; exact (Nat.zero_mul _).symm
    | succ n ih =>
      intro input
      simp only [units]
      cases hdec : decodeUnit t f input with
      | none => exact (Nat.zero_mul _).symm
      | some r =>
        obtain ⟨bytes, rest⟩ := r
        simp only [flatten_cons, length_append, length_cons, ih, decodeUnit_length hdec]
        rw [Nat.succ_mul, Nat.add_comm]
  rw [decode_eq_flatten]
  exact hunits ..

end

/-! ## 5. The device -/

def softReset (m : State) : State := { init with tables := m.tables }

/-- An access to the two registers of the device, or by one of its DMA channels -/
inductive PortOp
  | write (value : Word)
  | read
  | control (value : Word)

def portStep : PortOp → State → Option State
  | .write value, m => some (writeData m value)
  | .read, m => some (readWord m).2
  | .control value, m => some (if value.getLsbD 31 then softReset m else m)

def Reachable (m : State) : Prop := Runs.Reached portStep (fun _ _ => True) (· = init) m

section
variable {m : State}

theorem readWord_tables (m : State) : (readWord m).2.tables = m.tables := by
  have hbyte (r : Word × State) (i : Nat) : (readByte r i).2.tables = r.2.tables := by
    unfold readByte
    split <;> rfl
  have hbytes : ((List.range 4).foldl readByte (0#32, m)).2.tables = m.tables := by
    simp [List.range, List.range.loop, foldl_cons, foldl_nil, hbyte]
  rw [← hbytes]
  unfold readWord
  rw [apply_ite State.tables]
  exact ite_self _

theorem load_scaled {t : Tables} (h : Scaled t.scale) (cmd : Word) (input : List Half) :
    Scaled (t.load cmd input).scale := by
  unfold Tables.load
  split
  · exact h
  · intro i
    have hentry (entry : Half) : -4096 ≤ entry.toInt >>> (3 : Nat) ∧ entry.toInt >>> (3 : Nat) ≤ 4095 := by
      have hlo := le_two_mul_toInt (x := entry)
      have hhi := two_mul_toInt_lt (x := entry)
      rw [Int.shiftRight_eq_div_pow]
      omega
    exact hentry _
  · exact h

theorem executeCommand_scaled (h : Scaled m.tables.scale) : Scaled (executeCommand m).tables.scale := by
  unfold executeCommand
  split
  · exact h
  · exact load_scaled h m.command m.input

theorem writeData_scaled (h : Scaled m.tables.scale) (value : Word) :
    Scaled (writeData m value).tables.scale := by
  unfold writeData
  dsimp only
  split_ifs
  · exact executeCommand_scaled h
  · exact h
  · exact executeCommand_scaled h
  · exact h
  · unfold beginCommand
    dsimp only
    split <;> exact h

theorem Reachable.scaled (h : Reachable m) : Scaled m.tables.scale := by
  refine Runs.Reached.invariant (I := fun m => Scaled m.tables.scale) ?_ ?_ h
  · rintro m rfl i
    have hzero : init.tables.scale i = 0 := rfl
    rw [hzero]
    decide
  · rintro (value | _ | value) m m' hm - hstep
    · obtain rfl := some.inj hstep
      exact writeData_scaled hm value
    · obtain rfl := some.inj hstep
      rw [readWord_tables]
      exact hm
    · obtain rfl := some.inj hstep
      split
      · exact hm
      · exact hm

end

/-- What a decode command does with these tables is in range. -/
structure InRange (t : Tables) : Prop where
  /-- no result of the dequantisation or of a pass is out of its type, no index out of its array -/
  blocks : ∀ quant input, decodeRleBlockChecked t quant input = some (decodeRleBlock t quant input)
  samples : ∀ quant input b rest, decodeRleBlock t quant input = some (b, rest) →
    ∀ i, -128 ≤ b i ∧ b i ≤ 127
  pixels : ∀ f cr cb y₀ y₁ y₂ y₃,
    colorMacroblockChecked f cr cb y₀ y₁ y₂ y₃ = some (colorMacroblock f cr cb y₀ y₁ y₂ y₃)
  bytes : ∀ f input, (decode t f input).length = decodeMacroblocks t f input * unitBytes f

/-- **Decoding stays in range**, in every state the device can be in. -/
theorem decode_in_range {m : State} (h : Reachable m) : InRange m.tables where
  blocks := decodeRleBlockChecked_eq h.scaled
  samples _ _ _ _ hdec := decodeRleBlock_bounds hdec
  pixels := colorMacroblockChecked_eq
  bytes := decode_length m.tables

theorem reachable_writes {m : State} (h : Reachable m) (ws : List Word) :
    Reachable (ws.foldl writeData m) := by
  induction ws generalizing m with
  | nil => exact h
  | cons w ws ih => exact ih (h.next (a := .write w) trivial rfl)

/-- `SET_SCALE` with the extremes of the 16 bits -/
def steepScale : List Word := 0x60000000#32 :: List.replicate 32 0x7FFF8000#32

theorem decode_in_range_steep : (steepScale.foldl writeData init).tables.scale 0 = -4096 ∧
    (steepScale.foldl writeData init).tables.scale 8 = 4095 ∧
    InRange (steepScale.foldl writeData init).tables := by
  refine ⟨by decide +kernel, by decide +kernel, decode_in_range ?_⟩
  exact reachable_writes (.start rfl) steepScale

end PsxRecomp.Mdec
