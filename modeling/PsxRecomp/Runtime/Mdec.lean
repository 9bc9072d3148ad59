import PsxRecomp.Runtime.Ram

/-!
# `Runtime/Mdec.lean` — the macroblock decoder

`runtime/src/mdec.c`: commands and their payload come in as words (`write_data`); a decode command, once
its payload is complete, fills the output buffer, from which words are read (`mdec_dma_read_word`). The
decoder itself is here in full: run lengths, dequantisation, the two passes of the IDCT, and the
conversion to luma, 24-bit or 15-bit pixels. `outputs` says what a stream of words decodes to, command
by command and without any buffer. Memory allocation is taken to succeed.
-/

set_option autoImplicit false

namespace PsxRecomp.Mdec

open List Option

open Ram (Byte)

abbrev Half := BitVec 16

/-- 64 samples; the arithmetic on them is C's, in `int`, with casts where the code casts. -/
abbrev Block := Fin 64 → Int

/-- `y_quant`, `uv_quant` and `scale` -/
structure Tables where
  yQuant : Fin 64 → Byte
  uvQuant : Fin 64 → Byte
  scale : Block

structure Format where
  bit15 : Bool
  signed : Bool
  depth : Nat

/-! ## 1. One block -/

def zigzagToLinear : List (Fin 64) :=
  [0x00, 0x08, 0x01, 0x02, 0x09, 0x10, 0x18, 0x11, 0x0a, 0x03, 0x04, 0x0b, 0x12, 0x19, 0x20, 0x28,
   0x21, 0x1a, 0x13, 0x0c, 0x05, 0x06, 0x0d, 0x14, 0x1b, 0x22, 0x29, 0x30, 0x38, 0x31, 0x2a, 0x23,
   0x1c, 0x15, 0x0e, 0x07, 0x0f, 0x16, 0x1d, 0x24, 0x2b, 0x32, 0x39, 0x3a, 0x33, 0x2c, 0x25, 0x1e,
   0x17, 0x1f, 0x26, 0x2d, 0x34, 0x3b, 0x3c, 0x35, 0x2e, 0x27, 0x2f, 0x36, 0x3d, 0x3e, 0x37, 0x3f]

/-- The low `bits` of a number, sign-extended: `sign_x_to_s32`, and the casts to `int16_t`. -/
def signX (bits : Nat) (v : Int) : Int := (BitVec.ofInt bits v).toInt

def clampInt (v lo hi : Int) : Int := if v < lo then lo else if hi < v then hi else v

def mask9ClampS8 (v : Int) : Int := clampInt (signX 9 v) (-128) 127

/-- `sign_extend_10` of the low ten bits -/
def coefficient (word : Half) : Int := signX 10 (word &&& 0x3FF#16).toNat

def runLength (word : Half) : Nat := ((word >>> 10) &&& 0x3F#16).toNat

def bias (ci : Int) : Int := if ci = 0 then 0 else if ci < 0 then 8 else -8

/-- The coefficient of a block, in 12.4 fixed point: `scaled` is its product with the quantiser. -/
def dequant (ci q scaled : Int) : Int :=
  signX 16 (clampInt (if q ≠ 0 then scaled * 16 + bias ci else ci * 2 * 16) (-0x4000) 0x3FFF)

/-- One of the two passes: row `col` of `b` against row `x` of the matrix. -/
def dot (scale b : Block) (col x : Fin 8) : Int :=
  ((List.finRange 8).map fun u =>
    b ⟨col.val * 8 + u.val, by omega⟩ * scale ⟨x.val * 8 + u.val, by omega⟩).sum

def roundShift (sum : Int) : Int := (sum + 0x4000) >>> (15 : Nat)

/-- `idct_block`: the first pass transposes, the second does not. -/
def idctBlock (scale b : Block) : Block :=
  let hi (i : Fin 64) : Fin 8 := ⟨i.val / 8, by omega⟩
  let lo (i : Fin 64) : Fin 8 := ⟨i.val % 8, by omega⟩
  let tmp : Block := fun i => signX 16 (roundShift (dot scale b (lo i) (hi i)))
  fun i => signX 16 (mask9ClampS8 (roundShift (dot scale tmp (hi i) (lo i))))

/-- Padding before a block: `word` is the halfword read last. -/
def skipPadding : Half → List Half → Half × List Half
  | word, [] => (word, [])
  | word, next :: rest => if word = 0xFE00#16 then skipPadding next rest else (word, next :: rest)

/-- The coefficients after the first, up to the end mark: `k` is the index of the last one. -/
def acLoop (quant : Fin 64 → Byte) (qscale : Nat) : List Half → Nat → Block → Block × List Half
  | [], _, b => (b, [])
  | word :: rest, k, b =>
    if 63 ≤ k then (b, word :: rest)
    else if word = 0xFE00#16 then (b, rest)
    else if h : k + (runLength word + 1) < 64 then
      let k' : Fin 64 := ⟨k + (runLength word + 1), h⟩
      let ci := coefficient word
      let q : Int := qscale * (quant k').toNat
      let b' := Function.update b (zigzagToLinear.getD k' 0) (dequant ci q ((ci * q) >>> (3 : Nat)))
      acLoop quant qscale rest k' b'
    else (b, rest)

/-- `decode_rle_block`: a block and what is left of the input, `none` at its end -/
def decodeRleBlock (t : Tables) (quant : Fin 64 → Byte) : List Half → Option (Block × List Half)
  | [] => none
  | first :: input =>
    let (word, rest) := skipPadding first input
    let ci := coefficient word
    let q : Int := (quant 0).toNat
    let dc : Block := Function.update (fun _ => 0) 0 (dequant ci q (ci * q))
    let (b, rest) := acLoop quant (runLength word) rest 0 dc
    some (idctBlock t.scale b, rest)

/-! ## 2. Pixels -/

def byteOf (v : Int) : Byte := BitVec.ofInt 8 v

def toOutputU8 (f : Format) (v : Int) : Byte :=
  let v := clampInt v (-128) 127
  if f.signed then byteOf v else byteOf (v + 128)

def rgbTo555Chan (c : Byte) : Half :=
  let v := (c.toNat + 4) / 8
  BitVec.ofNat 16 (if 0x1F < v then 0x1F else v)

/-- `v & ~mask` for a mask of low bits -/
def clearLow (bits : Nat) (v : Int) : Int := v / 2 ^ bits * 2 ^ bits

/-- `append_rgb_pixel`: the bytes it appends -/
def rgbPixel (f : Format) (y cr cb : Int) : List Byte :=
  let r := mask9ClampS8 (y + ((359 * cr + 0x80) >>> (8 : Nat)))
  let g := mask9ClampS8 (y + ((clearLow 5 (-88 * cb) + clearLow 3 (-183 * cr) + 0x80) >>> (8 : Nat)))
  let b := mask9ClampS8 (y + ((454 * cb + 0x80) >>> (8 : Nat)))
  let unsign (v : Int) : Byte := byteOf v ^^^ 0x80#8
  if f.depth = 3 then
    let packed := rgbTo555Chan (unsign r) ||| (rgbTo555Chan (unsign g) <<< 5) |||
      (rgbTo555Chan (unsign b) <<< 10)
    let pixelXor : Half := (if f.bit15 then 0x8000#16 else 0#16) |||
      (if f.signed then 0x4210#16 else 0#16)
    let packed := packed ^^^ pixelXor
    [packed.setWidth 8, (packed >>> 8).setWidth 8]
  else
    let rgbXor : Byte := if f.signed then 0x80#8 else 0#8
    [unsign r ^^^ rgbXor, unsign g ^^^ rgbXor, unsign b ^^^ rgbXor]

/-- `append_luma_block` -/
def lumaBlock (f : Format) (y : Block) : List Byte := (List.finRange 64).map fun i => toOutputU8 f (y i)

/-- `append_color_macroblock` -/
def colorMacroblock (f : Format) (cr cb y₀ y₁ y₂ y₃ : Block) : List Byte :=
  (List.finRange 16).flatMap fun py => (List.finRange 16).flatMap fun px =>
    let y := if 8 ≤ py.val then (if 8 ≤ px.val then y₃ else y₂) else (if 8 ≤ px.val then y₁ else y₀)
    let chroma : Fin 64 := ⟨px.val / 2 + py.val / 2 * 8, by omega⟩
    rgbPixel f (y ⟨px.val % 8 + py.val % 8 * 8, by omega⟩) (cr chroma) (cb chroma)

/-! ## 3. A decode command -/

theorem skipPadding_length (word : Half) (input : List Half) :
    (skipPadding word input).2.length ≤ input.length := by
  induction input generalizing word with
  | nil => exact le_rfl
  | cons next rest ih =>
    unfold skipPadding
    split
    · exact (ih next).trans (Nat.le_succ _)
    · exact le_rfl

theorem acLoop_length (quant : Fin 64 → Byte) (qscale : Nat) (input : List Half) (k : Nat)
    (b : Block) : (acLoop quant qscale input k b).2.length ≤ input.length := by
  induction input generalizing k b with
  | nil => exact le_rfl
  | cons word rest ih =>
    unfold acLoop
    split_ifs
    · exact le_rfl
    · exact Nat.le_succ _
    · exact (ih _ _).trans (Nat.le_succ _)
    · exact Nat.le_succ _

theorem decodeRleBlock_length {t : Tables} {quant : Fin 64 → Byte} {input rest : List Half}
    {b : Block} (h : decodeRleBlock t quant input = some (b, rest)) : rest.length < input.length := by
  cases input with
  | nil => cases h
  | cons first input =>
    simp only [decodeRleBlock, some.injEq, Prod.mk.injEq] at h
    rw [← h.2, length_cons, Nat.lt_succ_iff]
    exact (acLoop_length ..).trans (skipPadding_length ..)

def decodeMacroblock (t : Tables) (f : Format) (input : List Half) :
    Option (List Byte × List Half) := do
  let (cr, input) ← decodeRleBlock t t.uvQuant input
  let (cb, input) ← decodeRleBlock t t.uvQuant input
  let (y₀, input) ← decodeRleBlock t t.yQuant input
  let (y₁, input) ← decodeRleBlock t t.yQuant input
  let (y₂, input) ← decodeRleBlock t t.yQuant input
  let (y₃, input) ← decodeRleBlock t t.yQuant input
  return (colorMacroblock f cr cb y₀ y₁ y₂ y₃, input)

/-- What one turn of `execute_decode`'s loops appends: a luma block or a colour macroblock. -/
def decodeUnit (t : Tables) (f : Format) (input : List Half) : Option (List Byte × List Half) :=
  if f.depth < 2 then
    (decodeRleBlock t t.yQuant input).map fun (y, rest) => (lumaBlock f y, rest)
  else decodeMacroblock t f input

/-- At most `n` turns. -/
def decodeUnits (t : Tables) (f : Format) : Nat → List Half → List Byte
  | 0, _ => []
  | n + 1, input =>
    match decodeUnit t f input with
    | none => []
    | some (bytes, rest) => bytes ++ decodeUnits t f n rest

/-- What each of at most `n` turns appends: `decode_macroblocks` is their number. -/
def units (t : Tables) (f : Format) : Nat → List Half → List (List Byte)
  | 0, _ => []
  | n + 1, input =>
    match decodeUnit t f input with
    | none => []
    | some (bytes, rest) => bytes :: units t f n rest

/-- `execute_decode`: what it puts in the buffer. Each turn takes at least a halfword, so the loops
end with the input. -/
def decode (t : Tables) (f : Format) (input : List Half) : List Byte :=
  decodeUnits t f input.length input

section
variable {t : Tables} {f : Format} {input rest : List Half} {bytes : List Byte}

theorem length_rgbPixel (f : Format) (y cr cb : Int) :
    (rgbPixel f y cr cb).length = if f.depth = 3 then 2 else 3 := by
  unfold rgbPixel
  split <;> rfl

theorem length_colorMacroblock (f : Format) (cr cb y₀ y₁ y₂ y₃ : Block) :
    (colorMacroblock f cr cb y₀ y₁ y₂ y₃).length = 256 * if f.depth = 3 then 2 else 3 := by
  simp only [colorMacroblock, length_flatMap, length_rgbPixel]
  split <;> decide

theorem decodeMacroblock_eq_some (h : decodeMacroblock t f input = some (bytes, rest)) :
    rest.length < input.length ∧ 4 ∣ bytes.length := by
  simp only [decodeMacroblock, bind, bind_eq_some_iff, pure, some.injEq,
    Prod.mk.injEq, Prod.exists] at h
  obtain ⟨cr, i₁, h₁, cb, i₂, h₂, y₀, i₃, h₃, y₁, i₄, h₄, y₂, i₅, h₅, y₃, i₆, h₆, rfl, rfl⟩ := h
  constructor
  · have := decodeRleBlock_length h₁
    have := decodeRleBlock_length h₂
    have := decodeRleBlock_length h₃
    have := decodeRleBlock_length h₄
    have := decodeRleBlock_length h₅
    have := decodeRleBlock_length h₆
    omega
  · rw [length_colorMacroblock]
    exact Dvd.dvd.mul_right (by decide) _

theorem decodeUnit_eq_some (h : decodeUnit t f input = some (bytes, rest)) :
    rest.length < input.length ∧ 4 ∣ bytes.length := by
  unfold decodeUnit at h
  split at h
  · simp only [map_eq_some_iff, Prod.exists, Prod.mk.injEq] at h
    obtain ⟨y, rest', hdec, rfl, rfl⟩ := h
    refine ⟨decodeRleBlock_length hdec, ?_⟩
    rw [lumaBlock, length_map, length_finRange]
    decide
  · exact decodeMacroblock_eq_some h

theorem four_dvd_decodeUnits (n : Nat) (input : List Half) :
    4 ∣ (decodeUnits t f n input).length := by
  induction n generalizing input with
  | zero => exact Nat.dvd_zero 4
  | succ n ih =>
    unfold decodeUnits
    split
    · exact Nat.dvd_zero 4
    next bytes rest h =>
      rw [length_append]
      exact Nat.dvd_add (decodeUnit_eq_some h).2 (ih rest)

theorem units_nil (n : Nat) : units t f n [] = [] := by
  cases n with
  | zero => rfl
  | succ n => simp [units, decodeUnit, decodeRleBlock, decodeMacroblock]

theorem units_eq_of_le {n m : Nat} (hn : input.length ≤ n) (hm : input.length ≤ m) :
    units t f n input = units t f m input := by
  induction n generalizing m input with
  | zero =>
    obtain rfl : input = [] := eq_nil_of_length_eq_zero (Nat.le_zero.mp hn)
    rw [units_nil, units_nil]
  | succ n ih =>
    cases m with
    | zero =>
      obtain rfl : input = [] := eq_nil_of_length_eq_zero (Nat.le_zero.mp hm)
      rw [units_nil, units_nil]
    | succ m =>
      simp only [units]
      cases hdec : decodeUnit t f input with
      | none => rfl
      | some r =>
        obtain ⟨bytes, rest⟩ := r
        have hlt := (decodeUnit_eq_some hdec).1
        have hn' : rest.length ≤ n := by omega
        have hm' : rest.length ≤ m := by omega
        simp [ih hn' hm']

theorem decodeUnits_eq_flatten (n : Nat) (input : List Half) :
    decodeUnits t f n input = (units t f n input).flatten := by
  induction n generalizing input with
  | zero => rfl
  | succ n ih =>
    simp only [decodeUnits, units]
    cases decodeUnit t f input with
    | none => rfl
    | some r => simp only [ih, flatten_cons]

end

/-! ## 4. What a stream of words decodes to -/

inductive Opcode where
  | decode
  | setQuant
  | setScale
  | nop
  deriving DecidableEq

def Opcode.ofWord (cmd : Word) : Opcode :=
  match (cmd >>> 29).toNat with
  | 1 => .decode
  | 2 => .setQuant
  | 3 => .setScale
  | _ => .nop

def Format.ofWord (cmd : Word) : Format where
  bit15 := cmd.getLsbD 25
  signed := cmd.getLsbD 26
  depth := ((cmd >>> 27) &&& 3#32).toNat

def expectedHalfwords (cmd : Word) : Nat :=
  match Opcode.ofWord cmd with
  | .decode => (cmd &&& 0xFFFF#32).toNat * 2
  | .setQuant => if cmd.getLsbD 0 then 64 else 32
  | .setScale => 64
  | .nop => 0

def inputByte (input : List Half) (i : Nat) : Byte :=
  let hw := input.getD (i / 2) 0
  if i % 2 = 1 then (hw >>> 8).setWidth 8 else hw.setWidth 8

/-- `SET_QUANT`, `SET_SCALE`: the tables are transposed and shifted as the decoder wants them. -/
def Tables.load (t : Tables) (cmd : Word) (input : List Half) : Tables :=
  match Opcode.ofWord cmd with
  | .setQuant =>
    { t with
      yQuant := fun i => inputByte input i.val
      uvQuant := fun i => inputByte input (if cmd.getLsbD 0 then 64 + i.val else i.val) }
  | .setScale =>
    { t with scale := fun i => (input.getD (i.val % 8 * 8 + i.val / 8) 0).toInt >>> (3 : Nat) }
  | _ => t

def produced (t : Tables) (cmd : Word) (input : List Half) : List Byte :=
  if Opcode.ofWord cmd = .decode then decode t (Format.ofWord cmd) input else []

def halves (w : Word) : List Half := [w.setWidth 16, (w >>> 16).setWidth 16]

def payloadWords (cmd : Word) : Nat := expectedHalfwords cmd / 2

theorem length_drop_lt (w : Word) (l : List Word) (k : Nat) : (l.drop k).length < (w :: l).length := by
  rw [length_drop, length_cons]
  exact Nat.lt_succ_of_le (Nat.sub_le _ _)

/-- The outputs of the complete decode commands of a stream, one after the other. -/
def outputs (t : Tables) : List Word → List Byte
  | [] => []
  | cmd :: words =>
    if payloadWords cmd ≤ words.length then
      let input := (words.take (payloadWords cmd)).flatMap halves
      produced t cmd input ++ outputs (t.load cmd input) (words.drop (payloadWords cmd))
    else []
termination_by words => words.length
decreasing_by exact length_drop_lt _ _ _

/-! ## 5. The device -/

/-- `MDECState`. `input` is what has been collected (`input_count` halfwords), `output` has
`output_size` bytes. -/
structure State where
  command : Word
  expectedHalfwords : Nat
  input : List Half
  output : List Byte
  outputPos : Nat
  tables : Tables
  format : Format
  busy : Bool

/-- `mdec_init` -/
def init : State where
  command := 0#32
  expectedHalfwords := 0
  input := []
  output := []
  outputPos := 0
  tables := { yQuant := fun _ => 1#8, uvQuant := fun _ => 1#8, scale := fun _ => 0 }
  format := { bit15 := false, signed := false, depth := 3 }
  busy := false

def clearOutput (m : State) : State := { m with output := [], outputPos := 0 }

def finishCommand (m : State) : State :=
  { m with expectedHalfwords := 0, input := [], busy := false }

def executeCommand (m : State) : State :=
  finishCommand <| match Opcode.ofWord m.command with
    | .decode =>
      { clearOutput m with output := decode m.tables m.format m.input }
    | _ => { m with tables := m.tables.load m.command m.input }

def beginCommand (m : State) (value : Word) : State :=
  let m := { m with command := value, format := Format.ofWord value, input := [], busy := true,
                    expectedHalfwords := expectedHalfwords value }
  if m.expectedHalfwords = 0 then finishCommand m else m

/-- `write_data`, `mdec_dma_write_word` -/
def writeData (m : State) (value : Word) : State :=
  if m.busy ∧ m.input.length < m.expectedHalfwords then
    let input := m.input ++ [value.setWidth 16]
    let input := if input.length < m.expectedHalfwords then
      input ++ [(value >>> 16).setWidth 16] else input
    let m := { m with input := input }
    if m.expectedHalfwords ≤ input.length then executeCommand m else m
  else beginCommand m value

/-- `mdec_dma_write_ready` -/
def writeReady (m : State) : Bool :=
  if m.outputPos < m.output.length then false
  else !m.busy || m.input.length < m.expectedHalfwords

/-- `mdec_dma_read_ready` -/
def readReady (m : State) : Bool := m.outputPos < m.output.length

/-- One turn of the loop of `mdec_dma_read_word` -/
def readByte (r : Word × State) (i : Nat) : Word × State :=
  if r.2.outputPos < r.2.output.length then
    (r.1 ||| ((r.2.output.getD r.2.outputPos 0).setWidth 32 <<< (8 * i)),
      { r.2 with outputPos := r.2.outputPos + 1 })
  else r

/-- `mdec_dma_read_word` -/
def readWord (m : State) : Word × State :=
  let r := (List.range 4).foldl readByte (0#32, m)
  (r.1, if r.2.output.length ≤ r.2.outputPos then clearOutput r.2 else r.2)

/-! ## 6. The device against the stream -/

theorem two_mul_payloadWords (cmd : Word) : 2 * payloadWords cmd = expectedHalfwords cmd := by
  unfold payloadWords expectedHalfwords
  split
  · omega
  · split <;> rfl
  · rfl
  · rfl

@[simp] theorem length_flatMap_halves (ws : List Word) : (ws.flatMap halves).length = 2 * ws.length := by
  induction ws with
  | nil => rfl
  | cons w ws ih =>
    simp only [flatMap_cons, length_append, ih, halves, length_cons, length_nil]
    omega

inductive Pending (m : State) : List Word → Prop
  | idle : m.busy = false → Pending m []
  | payload (ws : List Word) : m.busy = true → m.input = ws.flatMap halves →
      m.expectedHalfwords = expectedHalfwords m.command → m.format = Format.ofWord m.command →
      ws.length < payloadWords m.command → Pending m (m.command :: ws)

/-- The device after the words `fed`, when `drained` is what has been read from it: the outputs of
the stream are what was read, what is still in the buffer, and what the pending command and the
words to come decode to. -/
structure Agrees (t₀ : Tables) (fed : List Word) (drained : List Byte) (m : State) : Prop where
  aligned : 4 ∣ (m.output.drop m.outputPos).length
  stream : ∃ pend, Pending m pend ∧ ∀ rest, outputs t₀ (fed ++ rest) =
    drained ++ m.output.drop m.outputPos ++ outputs m.tables (pend ++ rest)

section
variable {t₀ : Tables} {fed pend : List Word} {drained : List Byte} {m : State}

theorem agrees_init : Agrees init.tables [] [] init :=
  ⟨Nat.dvd_zero 4, [], .idle rfl, fun _ => rfl⟩

theorem Pending.outputs_eq (h : Pending m pend) : outputs m.tables pend = [] := by
  cases h with
  | idle _ => simp [outputs]
  | payload ws _ _ _ _ hlt => rw [outputs, if_neg (by omega)]

theorem outputs_complete (t : Tables) (cmd : Word) {ws : List Word}
    (h : ws.length = payloadWords cmd) (rest : List Word) : outputs t (cmd :: ws ++ rest) =
      produced t cmd (ws.flatMap halves) ++ outputs (t.load cmd (ws.flatMap halves)) rest := by
  rw [cons_append, outputs, if_pos (by simp [← h]), ← h]
  simp

theorem Agrees.outputs_eq (h : Agrees t₀ fed drained m) :
    outputs t₀ fed = drained ++ m.output.drop m.outputPos := by
  obtain ⟨pend, hp, hs⟩ := h.stream
  have hs' := hs []
  rwa [append_nil, append_nil, hp.outputs_eq, append_nil] at hs'

theorem executeCommand_load (h : Opcode.ofWord m.command ≠ .decode) : executeCommand m =
    finishCommand { m with tables := m.tables.load m.command m.input } := by
  unfold executeCommand
  cases hop : Opcode.ofWord m.command with
  | decode => exact absurd hop h
  | setQuant => rfl
  | setScale => rfl
  | nop => rfl

theorem executeCommand_agrees {ws : List Word} (hdrained : m.output.length ≤ m.outputPos)
    (hfmt : m.format = Format.ofWord m.command) (hin : m.input = ws.flatMap halves)
    (hlen : ws.length = payloadWords m.command)
    (hs : ∀ rest, outputs t₀ (fed ++ rest) =
      drained ++ outputs m.tables (m.command :: ws ++ rest)) :
    Agrees t₀ fed drained (executeCommand m) := by
  simp only [outputs_complete m.tables m.command hlen, ← hin, produced, ← hfmt] at hs
  by_cases hop : Opcode.ofWord m.command = .decode
  · simp only [hop, if_true, Tables.load, ← append_assoc] at hs
    have hexec : executeCommand m =
        finishCommand { clearOutput m with output := decode m.tables m.format m.input } := by
      simp [executeCommand, hop]
    rw [hexec]
    exact ⟨four_dvd_decodeUnits .., [], .idle rfl, hs⟩
  · simp only [hop, if_false, nil_append] at hs
    have hempty : m.output.drop m.outputPos = [] := drop_eq_nil_of_le hdrained
    rw [executeCommand_load hop]
    refine ⟨?_, [], .idle rfl, fun rest => ?_⟩
    · simp [finishCommand, hempty]
    · simpa [finishCommand, hempty] using hs rest

theorem no_payload (t : Tables) {cmd : Word} (h : expectedHalfwords cmd = 0) :
    produced t cmd [] = [] ∧ t.load cmd [] = t := by
  have hnil (f : Format) : decode t f [] = [] := rfl
  unfold expectedHalfwords at h
  unfold produced Tables.load
  cases hop : Opcode.ofWord cmd with
  | decode => simp [hnil]
  | setQuant =>
    simp only [hop] at h
    split at h <;> cases h
  | setScale => simp [hop] at h
  | nop => simp

theorem beginCommand_agrees (hdrained : m.output.length ≤ m.outputPos) (v : Word)
    (hs : ∀ rest, outputs t₀ (fed ++ rest) = drained ++ outputs m.tables rest) :
    Agrees t₀ (fed ++ [v]) drained (beginCommand m v) := by
  have hempty : m.output.drop m.outputPos = [] := drop_eq_nil_of_le hdrained
  have hs' : ∀ rest, outputs t₀ (fed ++ [v] ++ rest) =
      drained ++ outputs m.tables (v :: ([] ++ rest)) := by
    intro rest
    rw [append_assoc]
    exact hs (v :: rest)
  unfold beginCommand
  dsimp only
  split
  next h0 =>
    -- a command without a payload is done at once, and decodes to nothing
    have hlen : ([] : List Word).length = payloadWords v := by simp [payloadWords, h0]
    obtain ⟨hprod, hload⟩ := no_payload m.tables h0
    refine ⟨by simp [finishCommand, hempty], [], .idle rfl, fun rest => ?_⟩
    have hrest : outputs m.tables (v :: rest) = outputs m.tables rest := by
      simpa [hprod, hload] using outputs_complete m.tables v hlen rest
    simpa [finishCommand, hempty, hrest] using hs' rest
  next h0 =>
    refine ⟨by simp [hempty], [v], .payload [] rfl rfl rfl rfl ?_, fun rest => ?_⟩
    · have := two_mul_payloadWords v
      simp only [length_nil]
      omega
    · simpa [hempty] using hs' rest

theorem writeData_agrees (h : Agrees t₀ fed drained m) (hready : writeReady m = true) (v : Word) :
    Agrees t₀ (fed ++ [v]) drained (writeData m v) := by
  obtain ⟨pend, hp, hs⟩ := h.stream
  have hdrained : m.output.length ≤ m.outputPos := by
    by_contra hlt
    simp [writeReady, Nat.not_le.mp hlt] at hready
  have hempty : m.output.drop m.outputPos = [] := drop_eq_nil_of_le hdrained
  simp only [hempty, append_nil] at hs
  cases hp with
  | idle hidle =>
    rw [writeData, if_neg (by simp [hidle])]
    exact beginCommand_agrees hdrained v hs
  | payload ws hbusy hin hexp hfmt hlt =>
    have htwo := two_mul_payloadWords m.command
    have hlen : m.input.length = 2 * ws.length := by rw [hin, length_flatMap_halves]
    have hin' : m.input ++ [v.setWidth 16] ++ [(v >>> 16).setWidth 16] =
        (ws ++ [v]).flatMap halves := by
      simp [hin, halves]
    have hs' : ∀ rest, outputs t₀ (fed ++ [v] ++ rest) =
        drained ++ outputs m.tables (m.command :: (ws ++ [v]) ++ rest) := by
      intro rest
      rw [append_assoc, hs]
      simp
    have hsecond : (m.input ++ [v.setWidth 16]).length < m.expectedHalfwords := by
      simp only [length_append, length_singleton]
      omega
    rw [writeData, if_pos ⟨hbusy, by omega⟩]
    simp only [if_pos hsecond, hin']
    split
    next hle =>
      refine executeCommand_agrees hdrained hfmt rfl ?_ hs'
      simp only [length_flatMap_halves, length_append, length_singleton] at hle ⊢
      omega
    next hle =>
      simp only [length_flatMap_halves, length_append, length_singleton] at hle
      refine ⟨by simp [hempty], _, .payload (ws ++ [v]) hbusy rfl hexp hfmt ?_, fun rest => ?_⟩
      · simp only [length_append, length_singleton]
        omega
      · simpa [hempty] using hs' rest

/-- The word that four bytes make, as the loop of `mdec_read_data` puts it together -/
def joined (b₀ b₁ b₂ b₃ : Byte) : Word :=
  0#32 ||| b₀.setWidth 32 <<< 0 ||| b₁.setWidth 32 <<< 8 ||| b₂.setWidth 32 <<< 16 ||| b₃.setWidth 32 <<< 24

theorem bytes_joined (b₀ b₁ b₂ b₃ : Byte) :
    Ram.Width.word.bytes (joined b₀ b₁ b₂ b₃) = [b₀, b₁, b₂, b₃] := by
  simp only [joined, Ram.Width.bytes, Ram.Width.size, range, range.loop, map_cons,
    map_nil, cons.injEq, and_true]
  refine ⟨?_, ?_, ?_, ?_⟩
  all_goals
    ext j hj
    interval_cases j <;> simp

theorem readWord_eq {b₀ b₁ b₂ b₃ : Byte} {rest : List Byte}
    (h : m.output.drop m.outputPos = b₀ :: b₁ :: b₂ :: b₃ :: rest) :
    Ram.Width.word.bytes (readWord m).1 = [b₀, b₁, b₂, b₃] ∧
      (readWord m).2.output.drop (readWord m).2.outputPos = rest ∧
      (readWord m).2.tables = m.tables ∧ ∀ pend, Pending m pend → Pending (readWord m).2 pend := by
  have hlen : m.outputPos + 4 + rest.length = m.output.length := by
    have := congrArg length h
    simp only [length_drop, length_cons] at this
    omega
  have hget (i : Nat) : m.output.getD (m.outputPos + i) 0 =
      (b₀ :: b₁ :: b₂ :: b₃ :: rest).getD i 0 := by
    rw [← h, getD_eq_getElem?_getD, getD_eq_getElem?_getD, getElem?_drop]
  have hloop : (range 4).foldl readByte (0#32, m) =
      (joined b₀ b₁ b₂ b₃, { m with outputPos := m.outputPos + 4 }) := by
    have hstep (i : Nat) (hi : i < 4) (v : Word) :
        readByte (v, { m with outputPos := m.outputPos + i }) i =
          (v ||| ((b₀ :: b₁ :: b₂ :: b₃ :: rest).getD i 0).setWidth 32 <<< (8 * i),
            { m with outputPos := m.outputPos + (i + 1) }) := by
      rw [readByte, if_pos (by dsimp only; omega), hget, Nat.add_assoc]
    have h₀ : readByte (0#32, m) 0 = _ := hstep 0 (by decide) 0#32
    have hrange : range 4 = [0, 1, 2, 3] := rfl
    simp only [hrange, foldl_cons, foldl_nil, h₀, hstep 1 (by decide),
      hstep 2 (by decide), hstep 3 (by decide)]
    rfl
  have hword : readWord m = (joined b₀ b₁ b₂ b₃, if m.output.length ≤ m.outputPos + 4 then clearOutput m
      else { m with outputPos := m.outputPos + 4 }) := by
    rw [readWord, hloop]
    rfl
  rw [hword]
  refine ⟨bytes_joined b₀ b₁ b₂ b₃, ?_, ?_, fun pend hp => ?_⟩
  · dsimp only
    split
    next hle => exact (eq_nil_of_length_eq_zero (by omega)).symm
    next => rw [← drop_drop, h]; rfl
  · dsimp only
    split <;> rfl
  · dsimp only
    split <;> cases hp with
    | idle hidle => exact .idle hidle
    | payload ws h₁ h₂ h₃ h₄ h₅ => exact .payload ws h₁ h₂ h₃ h₄ h₅

theorem readWord_agrees (h : Agrees t₀ fed drained m) (hready : readReady m = true) :
    Agrees t₀ fed (drained ++ Ram.Width.word.bytes (readWord m).1) (readWord m).2 := by
  obtain ⟨k, hk⟩ := h.aligned
  have hpos : 0 < (m.output.drop m.outputPos).length := by
    simpa [readReady] using hready
  -- the buffer holds whole words, so at least one
  match hout : m.output.drop m.outputPos with
  | [] | [_] | [_, _] | [_, _, _] =>
    rw [hout] at hk hpos
    simp only [length_cons, length_nil] at hk hpos
    omega
  | b₀ :: b₁ :: b₂ :: b₃ :: rest =>
    obtain ⟨hword, hrest, htab, hpend⟩ := readWord_eq hout
    obtain ⟨pend, hp, hs⟩ := h.stream
    rw [hout] at hs hk
    refine ⟨?_, pend, hpend pend hp, fun rest' => ?_⟩
    · rw [hrest]
      refine ⟨k - 1, ?_⟩
      simp only [length_cons] at hk
      omega
    · rw [hs, hword, hrest, htab]
      simp

end

end PsxRecomp.Mdec
