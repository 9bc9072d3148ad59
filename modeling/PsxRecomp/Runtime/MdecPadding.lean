import PsxRecomp.Runtime.Mdec

/-!
# `Runtime/MdecPadding.lean` — end marks behind a decode stream

Encoders fill a decode command up to its word count with end-of-block marks, `0xFE00`.
`decode_rle_block` skips them before a block, but the last halfword of the stream is never skipped: it
becomes the first coefficient of a block. In the colour formats this block is a `Cr` with nothing behind
it, and `execute_decode` drops the macroblock. In the 4- and 8-bit formats it is a whole luma block, and
64 bytes more are written.
-/

set_option autoImplicit false

namespace PsxRecomp.Mdec

open List Option Prod

open Ram (Byte)

abbrev endMark : Half := 0xFE00#16

def pad (n : Nat) : List Half := List.replicate n endMark

/-! ## 1. How a stream ends -/

/-- Where in the stream of blocks a halfword is read: behind a finished block, behind marks that are
skipped, or inside a block whose last coefficient had index `k`. -/
inductive At
  | closed
  | padding
  | inside (k : Nat)
deriving DecidableEq, Repr

def At.next : At → Half → At
  | .closed, word | .padding, word => if word = endMark then .padding else .inside 0
  | .inside k, word =>
    if word = endMark then .closed
    else if k + (runLength word + 1) < 63 then .inside (k + (runLength word + 1)) else .closed

def scan : At → List Half → At := List.foldl At.next

def At.isInside : At → Bool
  | .inside _ => true
  | _ => false

/-- How many of `n` marks behind a stream are left when its blocks have been read -/
def At.left : At → Nat → Nat
  | .closed, n => n
  | .padding, _ => 0
  | .inside _, n => n - 1

/-! ## 2. One block -/

section
variable {t : Tables} {f : Format} {quant : Fin 64 → Byte} {qscale k n : Nat} {b b' : Block}
  {input rest : List Half}

theorem pad_succ (n : Nat) : pad (n + 1) = endMark :: pad n := rfl

theorem acLoop_full (input : List Half) (b : Block) : acLoop quant qscale input 63 b = (b, input) := by
  cases input with
  | nil => rfl
  | cons word rest => rw [acLoop, if_pos le_rfl]

theorem acLoop_pad (hk : k < 63) (h : acLoop quant qscale input k b = (b', rest)) :
    (scan (.inside k) input = scan .closed rest ∧
        ∀ n, acLoop quant qscale (input ++ pad n) k b = (b', rest ++ pad n)) ∨
      (rest = [] ∧ (scan (.inside k) input).isInside = true ∧
        ∀ n, acLoop quant qscale (input ++ pad n) k b = (b', pad (n - 1))) := by
  induction input generalizing k b with
  | nil =>
    obtain ⟨rfl, rfl⟩ := mk.inj h
    refine .inr ⟨rfl, rfl, fun n => ?_⟩
    cases n with
    | zero => rfl
    | succ n =>
      rw [nil_append, pad_succ, acLoop, if_neg (by omega), if_pos rfl]
      rfl
  | cons word input ih =>
    rw [acLoop, if_neg (by omega)] at h
    simp only [List.cons_append]
    by_cases hmark : word = endMark
    · rw [if_pos hmark] at h
      obtain ⟨rfl, rfl⟩ := mk.inj h
      refine .inl ⟨?_, fun n => ?_⟩
      · simp [scan, foldl_cons, At.next, if_pos hmark]
      · rw [acLoop, if_neg (by omega), if_pos hmark]
    · rw [if_neg hmark] at h
      by_cases hlt : k + (runLength word + 1) < 64
      · rw [dif_pos hlt] at h
        have hnext (n : Nat) := acLoop.eq_2 quant qscale k b word (input ++ pad n)
        simp only [if_neg (show ¬ 63 ≤ k by omega), if_neg hmark, dif_pos hlt] at hnext
        by_cases hfull : k + (runLength word + 1) = 63
        · -- the last index: the next turn of the loop stops
          refine .inl ⟨?_, fun n => ?_⟩
          · simp only [hfull, acLoop_full, mk.injEq] at h
            simp only [scan, foldl_cons, At.next, if_neg hmark]
            rw [if_neg (by omega), h.2]
          · rw [hnext]
            simp only [hfull, acLoop_full, mk.injEq] at h ⊢
            exact ⟨h.1, by rw [h.2]⟩
        · have hscan : scan (.inside k) (word :: input) =
              scan (.inside (k + (runLength word + 1))) input := by
            simp only [scan, foldl_cons, At.next, if_neg hmark]
            rw [if_pos (by omega)]
          simp only [hscan, hnext]
          exact ih (by omega) h
      · rw [dif_neg hlt] at h
        obtain ⟨rfl, rfl⟩ := mk.inj h
        refine .inl ⟨?_, fun n => ?_⟩
        · simp only [scan, foldl_cons, At.next, if_neg hmark]
          rw [if_neg (by omega)]
        · rw [acLoop, if_neg (by omega), if_neg hmark, dif_neg hlt]

theorem skipPadding_marks (n : Nat) : skipPadding endMark (pad n) = (endMark, []) := by
  induction n with
  | zero => rfl
  | succ n ih => rw [pad_succ, skipPadding, if_pos rfl, ih]

theorem skipPadding_pad {first word : Half} (h : skipPadding first input = (word, rest)) :
    (scan .closed (first :: input) = scan (.inside 0) rest ∧
        ∀ n, skipPadding first (input ++ pad n) = (word, rest ++ pad n)) ∨
      (rest = [] ∧ scan .closed (first :: input) = .padding ∧
        ∀ n, skipPadding first (input ++ pad n) = (word, [])) := by
  induction input generalizing first with
  | nil =>
    obtain ⟨rfl, rfl⟩ := mk.inj h
    by_cases hmark : first = endMark
    · refine .inr ⟨rfl, ?_, fun n => ?_⟩
      · simp [scan, foldl_cons, foldl_nil, At.next, if_pos hmark]
      · rw [hmark]
        exact skipPadding_marks n
    · refine .inl ⟨?_, fun n => ?_⟩
      · simp [scan, foldl_cons, At.next, if_neg hmark]
      · cases n with
        | zero => rfl
        | succ n =>
          rw [nil_append, pad_succ, skipPadding, if_neg hmark]
  | cons next input ih =>
    rw [skipPadding] at h
    by_cases hmark : first = endMark
    · rw [if_pos hmark] at h
      have hscan : scan .closed (first :: next :: input) = scan .closed (next :: input) := by
        simp [scan, foldl_cons, At.next, if_pos hmark]
      have hskip (n : Nat) : skipPadding first (next :: input ++ pad n) =
          skipPadding next (input ++ pad n) := by
        rw [List.cons_append, skipPadding, if_pos hmark]
      simp only [hscan, hskip]
      exact ih h
    · rw [if_neg hmark] at h
      obtain ⟨rfl, rfl⟩ := mk.inj h
      refine .inl ⟨?_, fun n => ?_⟩
      · simp [scan, foldl_cons, At.next, if_neg hmark]
      · rw [List.cons_append, skipPadding, if_neg hmark]

/-- How a stream ends is read off by `scan`, one halfword at a time and without decoding: behind a block
the marks stay, or the last block takes some. -/
theorem decodeRleBlock_pad (h : decodeRleBlock t quant input = some (b, rest)) :
    (scan .closed input = scan .closed rest ∧
        ∀ n, decodeRleBlock t quant (input ++ pad n) = some (b, rest ++ pad n)) ∨
      (rest = [] ∧ ∀ n, decodeRleBlock t quant (input ++ pad n) =
        some (b, pad ((scan .closed input).left n))) := by
  cases input with
  | nil => cases h
  | cons first input =>
    obtain ⟨word, rest₁, hskip⟩ : ∃ word rest₁, skipPadding first input = (word, rest₁) := ⟨_, _, rfl⟩
    rw [decodeRleBlock, hskip] at h
    dsimp only at h
    obtain ⟨b₁, rest₂, hac⟩ : ∃ b₁ rest₂, acLoop quant (runLength word) rest₁ 0
        (Function.update (fun _ => 0) 0 (dequant (coefficient word) (quant 0).toNat
          (coefficient word * (quant 0).toNat))) = (b₁, rest₂) := ⟨_, _, rfl⟩
    rw [hac] at h
    obtain ⟨rfl, rfl⟩ := mk.inj (some.inj h)
    simp only [List.cons_append, decodeRleBlock]
    obtain ⟨hscan, hskip'⟩ | ⟨rfl, hscan, hskip'⟩ := skipPadding_pad hskip
    · simp only [hskip', hscan]
      obtain ⟨hscan', hac'⟩ | ⟨rfl, hscan', hac'⟩ := acLoop_pad (by decide) hac
      · exact .inl ⟨hscan', fun n => by rw [hac']⟩
      · refine .inr ⟨rfl, fun n => ?_⟩
        rw [hac']
        cases hs : scan (.inside 0) rest₁ with
        | inside k => rfl
        | closed | padding =>
          rw [hs] at hscan'
          cases hscan'
    · obtain ⟨rfl, rfl⟩ := mk.inj (show (_, []) = (b₁, rest₂) from hac)
      refine .inr ⟨rfl, fun n => ?_⟩
      rw [hskip', hscan]
      rfl

theorem decodeRleBlock_pad_exists (h : decodeRleBlock t quant input = some (b, rest)) (n : Nat) :
    ∃ n', decodeRleBlock t quant (input ++ pad n) = some (b, rest ++ pad n') := by
  obtain ⟨-, hdec⟩ | ⟨rfl, hdec⟩ := decodeRleBlock_pad h
  · exact ⟨n, hdec n⟩
  · exact ⟨_, hdec n⟩

theorem decodeRleBlock_marks (t : Tables) (quant : Fin 64 → Byte) (n : Nat) :
    ∃ b, decodeRleBlock t quant (pad (n + 1)) = some (b, []) := by
  rw [pad_succ, decodeRleBlock, skipPadding_marks]
  exact ⟨_, rfl⟩

/-! ## 3. The stream -/

theorem decodeMacroblock_pad {bytes : List Byte} (h : decodeMacroblock t f input = some (bytes, rest))
    (n : Nat) : ∃ n', decodeMacroblock t f (input ++ pad n) = some (bytes, rest ++ pad n') := by
  simp only [decodeMacroblock, bind, bind_eq_some_iff, pure, some.injEq,
    mk.injEq, Prod.exists] at h
  obtain ⟨cr, i₁, h₁, cb, i₂, h₂, y₀, i₃, h₃, y₁, i₄, h₄, y₂, i₅, h₅, y₃, i₆, h₆, rfl, rfl⟩ := h
  obtain ⟨n₁, h₁'⟩ := decodeRleBlock_pad_exists h₁ n
  obtain ⟨n₂, h₂'⟩ := decodeRleBlock_pad_exists h₂ n₁
  obtain ⟨n₃, h₃'⟩ := decodeRleBlock_pad_exists h₃ n₂
  obtain ⟨n₄, h₄'⟩ := decodeRleBlock_pad_exists h₄ n₃
  obtain ⟨n₅, h₅'⟩ := decodeRleBlock_pad_exists h₅ n₄
  obtain ⟨n₆, h₆'⟩ := decodeRleBlock_pad_exists h₆ n₅
  refine ⟨n₆, ?_⟩
  simp only [decodeMacroblock, bind, bind_some, h₁', h₂', h₃', h₄', h₅', h₆']
  rfl

theorem decodeMacroblock_marks (t : Tables) (f : Format) (n : Nat) :
    decodeMacroblock t f (pad n) = none := by
  cases n with
  | zero => rfl
  | succ n =>
    obtain ⟨b, hb⟩ := decodeRleBlock_marks t t.uvQuant n
    simp only [decodeMacroblock, bind, hb, bind_some]
    rfl

/-- What each turn of `execute_decode`'s loop appends -/
def turns (t : Tables) (f : Format) (input : List Half) : List (List Byte) :=
  units t f input.length input

/-- `decode_macroblocks` after `execute_decode` -/
def decodeMacroblocks (t : Tables) (f : Format) (input : List Half) : Nat := (turns t f input).length

theorem decode_eq_flatten (t : Tables) (f : Format) (input : List Half) :
    decode t f input = (turns t f input).flatten :=
  decodeUnits_eq_flatten ..

theorem turns_none (h : decodeUnit t f input = none) : turns t f input = [] := by
  rw [turns, units_eq_of_le le_rfl (Nat.le_succ _), units, h]

theorem turns_some {bytes : List Byte} (h : decodeUnit t f input = some (bytes, rest)) :
    turns t f input = bytes :: turns t f rest := by
  have hlt := (decodeUnit_eq_some h).1
  rw [turns, units_eq_of_le le_rfl (Nat.le_succ _), units, h]
  dsimp only
  rw [units_eq_of_le hlt.le le_rfl]
  rfl

/-- The stream consists of whole macroblocks, or of whole luma blocks. -/
inductive Whole (t : Tables) (f : Format) : List Half → Prop
  | nil : Whole t f []
  | unit {input rest : List Half} {bytes : List Byte} :
      decodeUnit t f input = some (bytes, rest) → Whole t f rest → Whole t f input

theorem turns_pad_color (hd : ¬ f.depth < 2) (h : Whole t f input) (n : Nat) :
    turns t f (input ++ pad n) = turns t f input := by
  induction h generalizing n with
  | nil =>
    rw [nil_append, turns_none, turns_none]
    · rw [decodeUnit, if_neg hd]
      exact decodeMacroblock_marks t f 0
    · rw [decodeUnit, if_neg hd, decodeMacroblock_marks]
  | unit hdec _ ih =>
    rw [turns_some hdec]
    rw [decodeUnit, if_neg hd] at hdec
    obtain ⟨n', hpad⟩ := decodeMacroblock_pad hdec n
    rw [turns_some ((if_neg hd).trans hpad), ih]

theorem turns_marks_luma (hd : f.depth < 2) (n : Nat) :
    ∃ y, turns t f (pad (n + 1)) = [lumaBlock f y] := by
  obtain ⟨b, hb⟩ := decodeRleBlock_marks t t.yQuant n
  have hunit : decodeUnit t f (pad (n + 1)) = some (lumaBlock f b, []) := by
    rw [decodeUnit, if_pos hd, hb]
    rfl
  exact ⟨b, by rw [turns_some hunit]; rfl⟩

theorem turns_pad_luma (hd : f.depth < 2) (h : Whole t f input) (n : Nat) :
    turns t f (input ++ pad n) = turns t f input ++ turns t f (pad ((scan .closed input).left n)) := by
  induction h with
  | nil => rfl
  | @unit input rest bytes hdec _ ih =>
    rw [turns_some hdec]
    rw [decodeUnit, if_pos hd, map_eq_some_iff] at hdec
    obtain ⟨⟨y, rest'⟩, hblock, heq⟩ := hdec
    obtain ⟨rfl, rfl⟩ := mk.inj heq
    have hunit {m : Nat} {r : List Half} (hb : decodeRleBlock t t.yQuant (input ++ pad m) = some (y, r)) :
        decodeUnit t f (input ++ pad m) = some (lumaBlock f y, r) := by
      rw [decodeUnit, if_pos hd, hb]
      rfl
    obtain ⟨hscan, hpad⟩ | ⟨rfl, hpad⟩ := decodeRleBlock_pad hblock
    · rw [turns_some (hunit (hpad n)), ih, hscan]
      rfl
    · rw [turns_some (hunit (hpad n))]
      rfl

end

/-- **Padding is inert in the colour formats.** In the luma formats it is only if the stream's last block
takes all of it: `n = 0` behind a finished block, `n ≤ 1` behind one that has no end mark yet, any `n`
behind a block that is itself made of padding. -/
theorem padding_inert_iff (t : Tables) (f : Format) (input : List Half) (n : Nat) (h : Whole t f input) :
    (decode t f (input ++ pad n) = decode t f input ∧
        decodeMacroblocks t f (input ++ pad n) = decodeMacroblocks t f input) ↔
      2 ≤ f.depth ∨ (scan .closed input).left n = 0 := by
  rw [decode_eq_flatten, decode_eq_flatten, decodeMacroblocks, decodeMacroblocks]
  by_cases hd : f.depth < 2
  · rw [turns_pad_luma hd h]
    cases hleft : (scan .closed input).left n with
    | zero =>
      have hnil : turns t f (pad 0) = [] := rfl
      rw [hnil, append_nil]
      exact ⟨fun _ => .inr rfl, fun _ => ⟨rfl, rfl⟩⟩
    | succ m =>
      obtain ⟨y, hy⟩ := turns_marks_luma (t := t) hd m
      rw [hy, length_append, length_singleton]
      constructor
      · rintro ⟨-, hcount⟩
        omega
      · rintro (hd' | hm)
        · omega
        · cases hm
  · rw [turns_pad_color hd h]
    exact ⟨fun _ => .inl (by omega), fun _ => ⟨rfl, rfl⟩⟩

def flatTables : Tables := ⟨fun _ => 2#8, fun _ => 2#8, fun _ => 0x1000⟩

def macroblock : List Half := (List.replicate 6 [5#16, endMark]).flatten

theorem padding_inert_macroblock : Whole flatTables ⟨false, false, 3⟩ macroblock ∧
    decode flatTables ⟨false, false, 3⟩ (macroblock ++ pad 4) =
      decode flatTables ⟨false, false, 3⟩ macroblock := by
  have hwhole : Whole flatTables ⟨false, false, 3⟩ macroblock := .unit rfl .nil
  exact ⟨hwhole, ((padding_inert_iff _ _ _ 4 hwhole).mpr (.inl (by decide))).1⟩

/-- A luma block and its end mark in one word, and a word of marks: there are two blocks. -/
theorem padding_becomes_block :
    (decode flatTables ⟨false, false, 0⟩ [5#16, endMark]).length = 64 ∧
      (decode flatTables ⟨false, false, 0⟩ [5#16, endMark, endMark, endMark]).length = 128 ∧
      decodeMacroblocks flatTables ⟨false, false, 0⟩ [5#16, endMark] = 1 ∧
      decodeMacroblocks flatTables ⟨false, false, 0⟩ [5#16, endMark, endMark, endMark] = 2 := by
  decide +kernel

end PsxRecomp.Mdec
