import PsxRecomp.Machine.Cpu

/-!
# `Runtime/TextXlate.lean` — messages in fullwidth Shift-JIS

`runtime/src/text_xlate.cpp` has two encoders for a translated message. `sj_transcode` keeps the
author's `\n`, `\f` and `\r` as they are, and `apply_to_reg` turns them into control codes of the game
when it frames the record; `msg_inplace_build` does both at once.
-/

set_option autoImplicit false

namespace PsxRecomp.TextXlate

open List

abbrev Byte := BitVec 8

/-! ## 1. The code -/

/-- The head of both loops: the code points, malformed sequences included -/
def codePoints : List Byte → List Nat
  | [] => []
  | c :: rest =>
    if c < 0x80#8 then c.toNat :: codePoints rest
    else if c &&& 0xE0#8 = 0xC0#8 then
      match rest with
      | b :: rest => ((c &&& 0x1F#8).toNat <<< 6 ||| (b &&& 0x3F#8).toNat) :: codePoints rest
      | [] => [0x20]
    else if c &&& 0xF0#8 = 0xE0#8 then
      match rest with
      | b :: d :: rest =>
        ((c &&& 0x0F#8).toNat <<< 12 ||| (b &&& 0x3F#8).toNat <<< 6 ||| (d &&& 0x3F#8).toNat) ::
          codePoints rest
      | rest => 0x20 :: codePoints rest
    else 0x20 :: codePoints rest

/-- The `switch` of `fw_sjis_for_ascii` -/
def punctuation : List (Nat × BitVec 16) :=
  [(0x20, 0x8140), (0x21, 0x8149), (0x3F, 0x8148), (0x2E, 0x8144), (0x2C, 0x8143), (0x3A, 0x8146),
    (0x3B, 0x8147), (0x27, 0x8166), (0x22, 0x8168), (0x28, 0x8169), (0x29, 0x816A), (0x5B, 0x816D),
    (0x5D, 0x816E), (0x2D, 0x817C), (0x2F, 0x815E), (0x26, 0x8195), (0x24, 0x8190), (0x25, 0x8193),
    (0x2B, 0x817B), (0x3D, 0x8181), (0x2A, 0x8196), (0x40, 0x8197), (0x3C, 0x8183), (0x3E, 0x8184),
    (0x5F, 0x8151)]

def fwSjisForAscii (cp : Nat) : BitVec 16 :=
  if 'A'.toNat ≤ cp ∧ cp ≤ 'Z'.toNat then .ofNat 16 (0x8260 + (cp - 'A'.toNat))
  else if 'a'.toNat ≤ cp ∧ cp ≤ 'z'.toNat then .ofNat 16 (0x8281 + (cp - 'a'.toNat))
  else if '0'.toNat ≤ cp ∧ cp ≤ '9'.toNat then .ofNat 16 (0x824F + (cp - '0'.toNat))
  else (punctuation.lookup cp).getD 0x8140#16

/-- The tail of both loops, down to `g` -/
def glyph (cp : Nat) : BitVec 16 :=
  let cp := if 0xFF01 ≤ cp ∧ cp ≤ 0xFF5E then cp - 0xFF00 + 0x20 else cp
  let cp := if cp = 0x3000 then 0x20 else cp
  fwSjisForAscii (if cp ≤ 0x7E then cp else 0x20)

def lowByte (g : BitVec 16) : Byte := g.setWidth 8

def highByte (g : BitVec 16) : Byte := (g >>> 8).setWidth 8

/-- `le` is `PSX_XLATE_LE`. -/
def sjTranscode (le : Bool) (utf8 : List Byte) : List Byte :=
  (codePoints utf8).flatMap fun cp =>
    if cp = 0x0A then [0x0A#8]
    else if cp = 0x0C then [0x0C#8]
    else if cp = 0x0D then [0x0D#8]
    else if le then [lowByte (glyph cp), highByte (glyph cp)]
    else [highByte (glyph cp), lowByte (glyph cp)]

inductive Term where
  | none | nul | ffff
  deriving DecidableEq

/-- The loop of `apply_to_reg` over the bytes of the encoded text -/
def frame (t : Term) (enc : List Byte) : List Byte :=
  enc.flatMap fun c =>
    if c = 0x0A#8 ∧ t = .ffff then [0xFE#8, 0xFF#8]
    else if c = 0x0A#8 then []
    else if c = 0x0C#8 then [0x30#8, 0xFC#8]
    else if c = 0x0D#8 then [0x10#8, 0xFC#8]
    else [c]

def msgInplaceBuild (utf8 : List Byte) : List Byte :=
  (codePoints utf8).flatMap fun cp =>
    if cp = 0x0A then [0xFE#8, 0xFF#8]
    else if cp = 0x0C then [0x30#8, 0xFC#8]
    else if cp = 0x0D then [0x10#8, 0xFC#8]
    else [lowByte (glyph cp), highByte (glyph cp)]

/-! ## 2. They agree -/

/-- The bytes that framing passes on -/
def Plain (c : Byte) : Prop := c ≠ 0x0A#8 ∧ c ≠ 0x0C#8 ∧ c ≠ 0x0D#8

instance (c : Byte) : Decidable (Plain c) := inferInstanceAs (Decidable (_ ∧ _ ∧ _))

theorem fwSjisForAscii_plain : ∀ cp < 0x7F,
    Plain (lowByte (fwSjisForAscii cp)) ∧ Plain (highByte (fwSjisForAscii cp)) := by
  decide +kernel

/-- No byte of a glyph is one of the three. -/
theorem glyph_apart (cp : Nat) : Plain (lowByte (glyph cp)) ∧ Plain (highByte (glyph cp)) := by
  unfold glyph
  dsimp only
  apply fwSjisForAscii_plain
  split_ifs <;> omega

theorem frame_plain {t : Term} {a b : Byte} (ha : Plain a) (hb : Plain b) : frame t [a, b] = [a, b] := by
  obtain ⟨ha1, ha2, ha3⟩ := ha
  obtain ⟨hb1, hb2, hb3⟩ := hb
  simp [frame, ha1, ha2, ha3, hb1, hb2, hb3]

/-- **The two encoders agree**, whatever the text. Framing looks at bytes, so this rests on the glyphs. -/
theorem encoders_agree (utf8 : List Byte) :
    msgInplaceBuild utf8 = frame .ffff (sjTranscode true utf8) := by
  unfold msgInplaceBuild sjTranscode
  rw [frame, flatMap_assoc]
  refine flatMap_congr fun cp _ => ?_
  -- one code point at a time
  change _ = frame .ffff _
  split_ifs with _ _ _ hle
  · rfl
  · rfl
  · rfl
  · exact (frame_plain (glyph_apart cp).1 (glyph_apart cp).2).symm
  · exact absurd rfl hle

/-! ## 3. Reading a record -/

def ramFold (va : Word) : Option Nat :=
  let p := va &&& 0x1FFFFFFF#32
  if p < 0x00800000#32 then some (p &&& 0x1FFFFF#32).toNat else none

/-- `grb(ram, va + i)` -/
def grb (ram : Nat → Byte) (va : Word) (i : Nat) : Byte := (ramFold (va + .ofNat 32 i)).elim 0 ram

def sjLead (c : Byte) : Bool := 0x81 ≤ c && c ≤ 0x9F || 0xE0 ≤ c && c ≤ 0xFC

def sjTrail (c : Byte) : Bool := 0x40 ≤ c && c ≤ 0x7E || 0x80 ≤ c && c ≤ 0xFC

def sjKana (c : Byte) : Bool := 0xA1 ≤ c && c ≤ 0xDF

def sjAscii (c : Byte) : Bool := 0x20 ≤ c && c ≤ 0x7E

/-- The loop of `sj_read_record` over the bytes `b` -/
def sjScan (b : Nat → Byte) (i : Nat) (out : List Byte) (real two : Nat) :
    Option (List Byte × Term × Nat × Nat) :=
  if i < 512 then
    let c := b i
    let d := b (i + 1)
    if c = 0 then some (out, .nul, real, two)
    else if c = 0xFF ∧ d = 0xFF then some (out, .ffff, real, two)
    else if sjLead c ∧ sjTrail d then
      if out.length + 2 > 512 then none else sjScan b (i + 2) (out ++ [c, d]) (real + 1) (two + 1)
    else if out.length + 1 > 512 then none
    else if sjKana c ∨ sjAscii c ∨ c = 0x0A then
      sjScan b (i + 1) (out ++ [c]) (if c ≠ 0x0A then real + 1 else real) two
    else sjScan b (i + 1) (out ++ [c]) real two
  else none

def sjReadRecord (ram : Nat → Byte) (va : Word) : Option (List Byte × Term) :=
  let b := grb ram va
  if (ramFold va).isSome ∧ (sjAscii (b 0) ∨ sjKana (b 0) ∨ sjLead (b 0)) then
    (sjScan b 0 [] 0 0).bind fun (out, t, real, two) =>
      if two < 2 ∧ real < 3 then none else some (out, t)
  else none

/-- What the loop is for: every byte up to the first terminator, one at a time -/
def record (b : Nat → Byte) (i : Nat) (out : List Byte) : Option (List Byte × Term) :=
  if i < 512 then
    if b i = 0 then some (out, .nul)
    else if b i = 0xFF ∧ b (i + 1) = 0xFF then some (out, .ffff)
    else record b (i + 1) (out ++ [b i])
  else none

variable {b : Nat → Byte} {i : Nat} {out : List Byte}

theorem record_next (hi : i < 512) (h0 : b i ≠ 0) (hF : ¬(b i = 0xFF ∧ b (i + 1) = 0xFF)) :
    record b i out = record b (i + 1) (out ++ [b i]) := by
  rw [record, if_pos hi, if_neg h0, if_neg hF]

theorem sjTrail_ne : ∀ d : Byte, sjTrail d = true → d ≠ 0 ∧ d ≠ 0xFF := by decide +kernel

theorem sjScan_eq (real two : Nat) (hout : out.length = i) :
    (sjScan b i out real two).map (fun r => (r.1, r.2.1)) = record b i out := by
  fun_induction sjScan b i out real two
  case case3 hi c d h0 hF _ _ =>
    rw [record_next hi h0 hF, record, if_neg (by omega)]
    rfl
  case case4 hi c d h0 hF hu _ ih =>
    -- the trail byte is stepped over unseen, so it must not start a terminator
    obtain ⟨hd0, hdF⟩ := sjTrail_ne d hu.2
    rw [ih (by simp [hout]), record_next hi h0 hF, record_next (by omega) hd0 (hdF ·.1), append_assoc]
    rfl
  case case5 => omega
  case case6 hi c d h0 hF _ _ _ ih | case7 hi c d h0 hF _ _ _ ih =>
    exact (ih (by simp [hout])).trans (record_next hi h0 hF).symm
  all_goals
    rw [record]
    simp_all +zetaDelta

/-- No terminator is stepped over and no byte before it lost. -/
theorem sjReadRecord_stops (ram : Nat → Byte) (va : Word) :
    (sjScan (grb ram va) 0 [] 0 0).map (fun r => (r.1, r.2.1)) = record (grb ram va) 0 [] ∧
      (sjReadRecord ram va = none ∨ sjReadRecord ram va = record (grb ram va) 0 []) := by
  have h : _ = record (grb ram va) 0 [] := sjScan_eq 0 0 rfl
  refine ⟨h, ?_⟩
  rw [sjReadRecord, ← h]
  cases sjScan (grb ram va) 0 [] 0 0 <;> grind

end PsxRecomp.TextXlate
