import Mathlib.Data.Fin.VecNotation
import PsxRecomp.Lib.Within
import PsxRecomp.Lib.Words
import PsxRecomp.Machine.Gte

/-!
# `Machine/GteCommands.lean` — the GTE commands, and what they leave alone

`gte_execute` of `runtime/src/gte.cpp` with the 22 commands it dispatches to and the helpers of `gte.h`.
A command is code over a `GTEState` (`GteM`); every arithmetic value is an `Int` as long as the source
computes in `int64_t` (none of the sums comes near 2^63) and is cut to its field where the source casts.
-/

set_option autoImplicit false

open Function

namespace PsxRecomp

open Words BitVec

/-! ## 1. The helpers of `GTEState` -/

/-- Code over a `GTEState`. -/
abbrev GteM := StateM GteState

/-- `FLAG |= 1u << bit` -/
def raise (bit : Nat) : GteM Unit := modify fun s => { s with FLAG := s.FLAG ||| 1#32 <<< bit }

def raiseIf (c : Prop) [Decidable c] (bit : Nat) : GteM Unit := if c then raise bit else pure ()

def flagSz3Otz : Nat := 18
def flagDivOvf : Nat := 17
def flagMac0Pos : Nat := 16
def flagMac0Neg : Nat := 15
def flagSx2Sat : Nat := 14
def flagSy2Sat : Nat := 13
def flagIr0Sat : Nat := 12

def flagErrorMask : Word := 0x7F87E000
def flagErrorBit : Word := 0x80000000

/-- The shape of all the saturations: below `lo` and above `hi` the bound, with `bit` raised. -/
def saturate (lo hi : Int) (bit : Nat) (value : Int) : GteM Int :=
  if value < lo then do
    raise bit
    return lo
  else if value > hi then do
    raise bit
    return hi
  else return value

def saturateIr (value : Int) (irNum : Nat) (lm : Bool) : GteM (BitVec 16) := do
  let v ← saturate (if lm then 0 else -0x8000) 0x7FFF (25 - irNum) value
  return .ofInt 16 v

def saturateIr0 (value : Int) : GteM (BitVec 16) := do
  let v ← saturate 0 0x1000 flagIr0Sat value
  return .ofInt 16 v

def saturateColor (value : Int) (component : Nat) : GteM (BitVec 8) := do
  let v ← saturate 0 255 (21 - component) value
  return .ofInt 8 v

def saturateSz (value : Int) : GteM (BitVec 16) := do
  let v ← saturate 0 0xFFFF flagSz3Otz value
  return .ofInt 16 v

def checkMacOverflow (value : Int) (macNum : Nat) : GteM Unit := do
  raiseIf (value > 0x7FFFFFFFF) (31 - macNum)
  raiseIf (value < -0x800000000) (28 - macNum)

def checkMac0Overflow (value : Int) : GteM Unit := do
  raiseIf (value > 0x7FFFFFFF) flagMac0Pos
  raiseIf (value < -0x80000000) flagMac0Neg

/-- The FIFO part of `push_sxy`. -/
def GteState.shiftSxy (s : GteState) (w : Word) : GteState :=
  { s with SXY_0 := s.SXY_1, SXY_1 := s.SXY_2, SXY_2 := w, SXY_3 := w }

def pushSxy (sx sy : Int) : GteM Unit := do
  let sxSat ← saturate (-0x400) 0x3FF flagSx2Sat sx
  let sySat ← saturate (-0x400) 0x3FF flagSy2Sat sy
  modify fun s => s.shiftSxy (pack16 (.ofInt 16 sySat) (.ofInt 16 sxSat))

def pushSz (value : Int) : GteM Unit := do
  modify fun s => { s with SZ_0 := s.SZ_1, SZ_1 := s.SZ_2, SZ_2 := s.SZ_3 }
  let sz ← saturateSz value
  modify fun s => { s with SZ_3 := sz }

/-- Byte `n` of a packed colour. -/
def colorByte (w : Word) (n : Nat) : BitVec 8 := (w >>> (8 * n)).setWidth 8

def pushRgb (r g b : BitVec 8) : GteM Unit :=
  modify fun s =>
    { s with
      RGB_0 := s.RGB_1
      RGB_1 := s.RGB_2
      RGB_2 := ((colorByte s.RGBC 3).setWidth 32 <<< 24) ||| (b.setWidth 32 <<< 16) |||
        (g.setWidth 32 <<< 8) ||| r.setWidth 32 }

def setErrorFlag : GteM Unit :=
  modify fun s =>
    { s with FLAG := if s.FLAG &&& flagErrorMask ≠ 0 then s.FLAG ||| flagErrorBit else s.FLAG }

/-! ## 2. The perspective division -/

/-- `xa = (xa * (1024u * 512u - ((divisor >> 7) * xa))) >> 18`, in 32 bits -/
def divRound (divisor7 xa : Word) : Word := (xa * (1024 * 512 - divisor7 * xa)) >>> 18

/-- The entry `gte_init_div_table` writes at `i` below `0x100`: there `divisor >> 7` is `0x100 + i`. -/
def divEntry (i : Nat) : BitVec 8 :=
  let xa := (divRound (.ofNat 32 (0x100 + i)))^[4] 512
  (((xa + 1) >>> 1) - 0x101).setWidth 8

/-- `s_gte_div_table`; the last entry repeats the one before it. -/
def gteDivTable (i : Nat) : BitVec 8 := if i = 0x100 then divEntry 0xFF else divEntry i

-- the two ends of the published table
example : gteDivTable 0 = 0xFF#8 ∧ gteDivTable 0x100 = 0#8 := by decide

def gteCalcRecip (divisor : BitVec 16) : Int :=
  let x : Int := 0x101 + (gteDivTable (((divisor &&& 0x7FFF).toNat + 0x40) >>> 7)).toNat
  let tmp : Int := (divisor.toNat * -x + 0x80) >>> (8 : Nat)
  (x * (131072 + tmp) + 0x80) >>> (8 : Nat)

/-- The loop of `gte_clz16` from bit `b - 1` down. -/
def clzBelow (v : BitVec 16) : Nat → Nat
  | 0 => 0
  | b + 1 => if v.getLsbD b then 0 else clzBelow v b + 1

def gteClz16 (v : BitVec 16) : Nat := clzBelow v 16

def divQuotient (h sz3 : BitVec 16) : Int :=
  let bias := gteClz16 sz3
  let dividend := h.toNat <<< bias
  let divisor := sz3.toNat <<< bias
  let recip := (gteCalcRecip (.ofNat 16 divisor ||| 0x8000)).toNat
  let result := (dividend * recip + 32768) >>> 16
  if result > 0x1FFFF then 0x1FFFF else result

def gteDivide (h sz3 : BitVec 16) : GteM Int :=
  if sz3.toNat * 2 ≤ h.toNat then do
    raise flagDivOvf
    return 0x1FFFF
  else return divQuotient h sz3

/-! ## 3. Vectors, matrices, and the steps commands share -/

abbrev Vec := Fin 3 → Int

def dot (m v : Vec) : Int := m 0 * v 0 + m 1 * v 1 + m 2 * v 2

namespace GteState

variable (s : GteState)

def V0 : Vec := ![s.V0_0.toInt, s.V0_1.toInt, s.V0_2.toInt]
def V1 : Vec := ![s.V1_0.toInt, s.V1_1.toInt, s.V1_2.toInt]
def V2 : Vec := ![s.V2_0.toInt, s.V2_1.toInt, s.V2_2.toInt]
def IR : Vec := ![s.IR1.toInt, s.IR2.toInt, s.IR3.toInt]
def MAC : Vec := ![s.MAC1.toInt, s.MAC2.toInt, s.MAC3.toInt]
def TR : Vec := ![s.TR_0.toInt, s.TR_1.toInt, s.TR_2.toInt]
def BK : Vec := ![s.BK_0.toInt, s.BK_1.toInt, s.BK_2.toInt]
def FC : Vec := ![s.FC_0.toInt, s.FC_1.toInt, s.FC_2.toInt]

def RT : Fin 3 → Vec :=
  ![![s.RT_0_0.toInt, s.RT_0_1.toInt, s.RT_0_2.toInt],
    ![s.RT_1_0.toInt, s.RT_1_1.toInt, s.RT_1_2.toInt],
    ![s.RT_2_0.toInt, s.RT_2_1.toInt, s.RT_2_2.toInt]]

def L : Fin 3 → Vec :=
  ![![s.L_0_0.toInt, s.L_0_1.toInt, s.L_0_2.toInt],
    ![s.L_1_0.toInt, s.L_1_1.toInt, s.L_1_2.toInt],
    ![s.L_2_0.toInt, s.L_2_1.toInt, s.L_2_2.toInt]]

def LC : Fin 3 → Vec :=
  ![![s.LC_0_0.toInt, s.LC_0_1.toInt, s.LC_0_2.toInt],
    ![s.LC_1_0.toInt, s.LC_1_1.toInt, s.LC_1_2.toInt],
    ![s.LC_2_0.toInt, s.LC_2_1.toInt, s.LC_2_2.toInt]]

end GteState

def colorVec (w : Word) : Vec :=
  ![(colorByte w 0).toNat, (colorByte w 1).toNat, (colorByte w 2).toNat]

/-- `MACn = static_cast<int32_t>(macn)`, the three of them -/
def setMacs (mac : Vec) : GteM Unit :=
  modify fun s =>
    { s with MAC1 := .ofInt 32 (mac 0), MAC2 := .ofInt 32 (mac 1), MAC3 := .ofInt 32 (mac 2) }

/-- `IRn = saturate_ir(vn, n, lm)`, the three of them -/
def setIrs (v : Vec) (lm : Bool) : GteM Unit := do
  let ir1 ← saturateIr (v 0) 1 lm
  let ir2 ← saturateIr (v 1) 2 lm
  let ir3 ← saturateIr (v 2) 3 lm
  modify fun s => { s with IR1 := ir1, IR2 := ir2, IR3 := ir3 }

/-- `MACn = macn; IRn = saturate_ir(MACn, n, lm)`, how almost every step ends -/
def setMacsIrs (mac : Vec) (lm : Bool) : GteM Unit := do
  setMacs mac
  setIrs (← get).MAC lm

/-- `push_rgb(saturate_color(MAC1 >> 4, 0), …)` -/
def pushMacs : GteM Unit := do
  let mac := (← get).MAC
  let r ← saturateColor (mac 0 >>> (4 : Nat)) 0
  let g ← saturateColor (mac 1 >>> (4 : Nat)) 1
  let b ← saturateColor (mac 2 >>> (4 : Nat)) 2
  pushRgb r g b

def lightTransform (v : Vec) : GteM Unit := do
  let s ← get
  setMacsIrs (fun i => dot (s.L i) v >>> (12 : Nat)) true

def lightColor : GteM Unit := do
  let s ← get
  setMacsIrs (fun i => (s.BK i * 2 ^ 12 + dot (s.LC i) s.IR) >>> (12 : Nat)) true

def colorOutput : GteM Unit := do
  let s ← get
  setMacsIrs (fun i => (colorVec s.RGBC i * s.IR i * 2 ^ 4) >>> (12 : Nat)) true
  pushMacs

def depthCueFromIr : GteM Unit := do
  let s ← get
  let mac : Vec := fun i => s.FC i * 2 ^ 12 - s.IR i * 2 ^ 12
  setMacsIrs (fun i => s.IR i + (s.IR0.toInt * (mac i >>> (12 : Nat))) >>> (12 : Nat)) true

/-! ## 4. The commands -/

/-- The settings of the widescreen squash: the ratio, whether this frame is presented at 4:3, and the
depth from which a bracketed draw is exempt. -/
structure Widescreen where
  xnum : Int
  xden : Int
  presentNative43 : Bool
  suppress : Bool
  farThreshold : Int

/-- The horizontal term of the projection, squashed or not. -/
def Widescreen.squash (W : Widescreen) (sz : BitVec 16) (xterm : Int) : Int :=
  if W.xnum ≠ W.xden ∧ W.presentNative43 = false ∧
      ¬(W.suppress = true ∧ W.farThreshold ≤ (sz.toNat : Int)) then
    (xterm * W.xnum).tdiv W.xden
  else xterm

/-- Step 5 of a projection: `MAC0` and `IR0`. -/
def depthCue (hDivSz : Int) : GteM Unit := do
  let s ← get
  let mac0 := s.DQA.toInt * hDivSz + s.DQB.toInt
  checkMac0Overflow mac0
  modify fun s => { s with MAC0 := .ofInt 32 mac0 }
  let ir0 ← saturateIr0 (BitVec.ofInt 32 (mac0 >>> (12 : Nat))).toInt
  modify fun s => { s with IR0 := ir0 }

def gteRtpsInternal (W : Widescreen) (v : Vec) (setMac0 : Bool) : GteM Unit := do
  let s ← get
  let mac : Vec := fun i => (s.TR i * 2 ^ 12 + dot (s.RT i) v) >>> (12 : Nat)
  checkMacOverflow (mac 0) 1
  checkMacOverflow (mac 1) 2
  checkMacOverflow (mac 2) 3
  setMacsIrs mac false
  pushSz (← get).MAC3.toInt
  let s ← get
  let hDivSz ← gteDivide s.H s.SZ_3
  let sx := s.OFX.toInt + W.squash s.SZ_3 (s.IR1.toInt * hDivSz)
  let sy := s.OFY.toInt + s.IR2.toInt * hDivSz
  pushSxy (sx >>> (16 : Nat)) (sy >>> (16 : Nat))
  if setMac0 then depthCue hDivSz else pure ()

/-- Every command starts from a clear `FLAG` and sums the errors up at its end. -/
def command (body : GteM Unit) : GteM Unit := do
  modify fun s => { s with FLAG := 0 }
  body
  setErrorFlag

/-- A command that treats `V0`, `V1` and `V2` in turn. Their registers are inputs, so it does not
matter that the later two are read before the first is treated. -/
def triple (f g h : Vec → GteM Unit) : GteM Unit := do
  let s ← get
  f s.V0
  g s.V1
  h s.V2

def gteRtps (W : Widescreen) : GteM Unit :=
  command do gteRtpsInternal W (← get).V0 true

def gteRtpt (W : Widescreen) : GteM Unit :=
  command (triple (gteRtpsInternal W · false) (gteRtpsInternal W · false) (gteRtpsInternal W · true))

/-- The two halves of a packed screen coordinate, as `int16_t`. -/
def screenX (w : Word) : Int := (lo16 w).toInt
def screenY (w : Word) : Int := (hi16 w).toInt

def gteNclip : GteM Unit := command do
  let s ← get
  let mac0 := screenX s.SXY_0 * (screenY s.SXY_1 - screenY s.SXY_2) +
    screenX s.SXY_1 * (screenY s.SXY_2 - screenY s.SXY_0) +
    screenX s.SXY_2 * (screenY s.SXY_0 - screenY s.SXY_1)
  checkMac0Overflow mac0
  modify fun s => { s with MAC0 := .ofInt 32 mac0 }

/-- What `gte_avsz3` and `gte_avsz4` do with their product. -/
def averageZ (mac0 : Int) : GteM Unit := do
  checkMac0Overflow mac0
  modify fun s => { s with MAC0 := .ofInt 32 (mac0 >>> (12 : Nat)) }
  let otz ← saturateSz (← get).MAC0.toInt
  modify fun s => { s with OTZ := otz }

def gteAvsz3 : GteM Unit := command do
  let s ← get
  averageZ (s.ZSF3.toInt * (s.SZ_1.toNat + s.SZ_2.toNat + s.SZ_3.toNat))

def gteAvsz4 : GteM Unit := command do
  let s ← get
  averageZ (s.ZSF4.toInt * (s.SZ_0.toNat + s.SZ_1.toNat + s.SZ_2.toNat + s.SZ_3.toNat))

def gteNccsInternal (v : Vec) : GteM Unit := do
  lightTransform v
  lightColor
  colorOutput

def gteNccs : GteM Unit := command do gteNccsInternal (← get).V0

def gteNcct : GteM Unit := command (triple gteNccsInternal gteNccsInternal gteNccsInternal)

def gteNcdsInternal (v : Vec) : GteM Unit := do
  lightTransform v
  lightColor
  depthCueFromIr
  colorOutput

def gteNcds : GteM Unit := command do gteNcdsInternal (← get).V0

def gteNcdt : GteM Unit := command (triple gteNcdsInternal gteNcdsInternal gteNcdsInternal)

def gteNcsInternal (v : Vec) : GteM Unit := do
  lightTransform v
  lightColor
  pushMacs

def gteNcs : GteM Unit := command do gteNcsInternal (← get).V0

def gteNct : GteM Unit := command (triple gteNcsInternal gteNcsInternal gteNcsInternal)

def cueColor (color : Word) : GteM Unit := do
  setIrs (fun i => colorVec color i * 2 ^ 4) false
  depthCueFromIr
  pushMacs

def gteDpcs : GteM Unit := command do cueColor (← get).RGBC

/-- Each round takes the oldest entry; the push at its end brings the next one to the front. -/
def gteDpct : GteM Unit :=
  command ((List.range 3).forM fun _ => do cueColor (← get).RGB_0)

def gteDpcl : GteM Unit := command do
  let s ← get
  setMacsIrs (fun i => (colorVec s.RGBC i * s.IR i) >>> (8 : Nat)) true
  depthCueFromIr
  pushMacs

def gteIntpl : GteM Unit := command do
  depthCueFromIr
  pushMacs

def gteCdp : GteM Unit := command do
  lightColor
  depthCueFromIr
  colorOutput

def gteCc : GteM Unit := command do
  lightColor
  colorOutput

/-- `(instr >> 19) & 1` -/
def sfBit (instr : Word) : Bool := instr.getLsbD 19

/-- `(instr >> 10) & 1` -/
def lmBit (instr : Word) : Bool := instr.getLsbD 10

/-- `if (sf) mac >>= 12` -/
def shiftSf (instr : Word) (mac : Int) : Int := if sfBit instr then mac >>> (12 : Nat) else mac

def mvmvaMatrix (instr : Word) (s : GteState) : Fin 3 → Vec :=
  match (instr >>> 17).setWidth 2 with
  | 0#2 => s.RT
  | 1#2 => s.L
  | 2#2 => s.LC
  | _ => fun _ _ => 0

def mvmvaVector (instr : Word) (s : GteState) : Vec :=
  match (instr >>> 15).setWidth 2 with
  | 0#2 => s.V0
  | 1#2 => s.V1
  | 2#2 => s.V2
  | _ => s.IR

def mvmvaTranslation (instr : Word) (s : GteState) : Vec :=
  match (instr >>> 13).setWidth 2 with
  | 0#2 => fun i => s.TR i * 2 ^ 12
  | 1#2 => fun i => s.BK i * 2 ^ 12
  | 2#2 => fun i => s.FC i * 2 ^ 12
  | _ => fun _ => 0

def gteMvmva (instr : Word) : GteM Unit := command do
  let s ← get
  let mac : Vec := fun i =>
    shiftSf instr (mvmvaTranslation instr s i + dot (mvmvaMatrix instr s i) (mvmvaVector instr s))
  checkMacOverflow (mac 0) 1
  checkMacOverflow (mac 1) 2
  checkMacOverflow (mac 2) 3
  setMacsIrs mac (lmBit instr)

def gteOp (instr : Word) : GteM Unit := command do
  let s ← get
  let d1 := s.RT 0 0
  let d2 := s.RT 1 1
  let d3 := s.RT 2 2
  let mac : Vec :=
    ![d2 * s.IR 2 - d3 * s.IR 1, d3 * s.IR 0 - d1 * s.IR 2, d1 * s.IR 1 - d2 * s.IR 0]
  setMacsIrs (fun i => shiftSf instr (mac i)) (lmBit instr)

def gteSqr (instr : Word) : GteM Unit := command do
  let s ← get
  setMacsIrs (fun i => shiftSf instr (s.IR i * s.IR i)) (lmBit instr)

def gteGpf (instr : Word) : GteM Unit := command do
  let s ← get
  setMacsIrs (fun i => shiftSf instr (s.IR0.toInt * s.IR i)) (lmBit instr)
  pushMacs

def gteGpl (instr : Word) : GteM Unit := command do
  let s ← get
  let base : Vec := fun i => if sfBit instr then s.MAC i * 2 ^ 12 else s.MAC i
  setMacsIrs (fun i => shiftSf instr (base i + s.IR0.toInt * s.IR i)) (lmBit instr)
  pushMacs

/-- The `switch` of `gte_execute`; any other function exits the emulator. -/
def gteCommand (W : Widescreen) (cmd : Word) : Option (GteM Unit) :=
  match (cmd.setWidth 6 : BitVec 6) with
  | 0x01 => some (gteRtps W)
  | 0x06 => some gteNclip
  | 0x0C => some (gteOp cmd)
  | 0x10 => some gteDpcs
  | 0x11 => some gteIntpl
  | 0x12 => some (gteMvmva cmd)
  | 0x13 => some gteNcds
  | 0x14 => some gteCdp
  | 0x16 => some gteNcdt
  | 0x1B => some gteNccs
  | 0x1C => some gteCc
  | 0x1E => some gteNcs
  | 0x20 => some gteNct
  | 0x28 => some (gteSqr cmd)
  | 0x29 => some gteDpcl
  | 0x2A => some gteDpct
  | 0x2D => some gteAvsz3
  | 0x2E => some gteAvsz4
  | 0x30 => some (gteRtpt W)
  | 0x3D => some (gteGpf cmd)
  | 0x3E => some (gteGpl cmd)
  | 0x3F => some gteNcct
  | _ => none

/-- `gte_execute`. Its load is not `gte_load_data`: `FLAG` goes through the masked write. -/
def gteExecute (W : Widescreen) (cmd : Word) (g : Gte) : Option Gte :=
  (gteCommand W cmd).map fun c =>
    gteStoreData (c.run (loadCtrlRegs g.ctrl (loadDataRegs g.data default))).2

/-! ## 5. What a command may write -/

/-- `s'` differs from `s` in results only. -/
def SameInputs (s s' : GteState) : Prop :=
  s' = { s with
    SXY_0 := s'.SXY_0, SXY_1 := s'.SXY_1, SXY_2 := s'.SXY_2, SXY_3 := s'.SXY_3,
    SZ_0 := s'.SZ_0, SZ_1 := s'.SZ_1, SZ_2 := s'.SZ_2, SZ_3 := s'.SZ_3,
    RGB_0 := s'.RGB_0, RGB_1 := s'.RGB_1, RGB_2 := s'.RGB_2,
    IR0 := s'.IR0, IR1 := s'.IR1, IR2 := s'.IR2, IR3 := s'.IR3,
    MAC0 := s'.MAC0, MAC1 := s'.MAC1, MAC2 := s'.MAC2, MAC3 := s'.MAC3,
    OTZ := s'.OTZ, FLAG := s'.FLAG }

variable {s t : GteState}

theorem SameInputs.trans {u : GteState} (h : SameInputs s t) (h' : SameInputs t u) :
    SameInputs s u := by
  rw [h', h]
  rfl

/-- `s'` has the inputs of `s`, `SXYP` still mirrors `SXY2`, and the error summary is where it was. -/
structure Framed (s s' : GteState) : Prop where
  inputs : SameInputs s s'
  mirror : s.SXY_3 = s.SXY_2 → s'.SXY_3 = s'.SXY_2
  summary : s'.FLAG.msb = s.FLAG.msb

theorem Framed.trans {u : GteState} (h : Framed s t) (h' : Framed t u) : Framed s u where
  inputs := h.inputs.trans h'.inputs
  mirror := h'.mirror ∘ h.mirror
  summary := h'.summary.trans h.summary

instance : IsPreorder GteState Framed where
  refl _ := ⟨rfl, id, rfl⟩
  trans _ _ _ := Framed.trans

variable {bit : Nat}

theorem raise_within (h : bit < 31) : Within Framed (raise bit) :=
  .modify fun s =>
    { inputs := rfl
      mirror := id
      summary := by
        have hbit : (1#32 <<< bit).msb = false := by
          simp
          omega
        simp [hbit] }

theorem raiseIf_within {c : Prop} [Decidable c] (h : bit < 31) :
    Within Framed (raiseIf c bit) :=
  .ite (raise_within h) (.pure _)

theorem saturate_within (h : bit < 31) (lo hi value : Int) :
    Within Framed (saturate lo hi bit value) :=
  .ite ((raise_within h).seq (.pure _)) (.ite ((raise_within h).seq (.pure _)) (.pure _))

variable (value : Int)

theorem saturateIr_within (irNum : Nat) (lm : Bool) :
    Within Framed (saturateIr value irNum lm) :=
  (saturate_within (by omega) ..).bind fun _ => .pure _

theorem saturateIr0_within : Within Framed (saturateIr0 value) :=
  (saturate_within (by decide) ..).bind fun _ => .pure _

theorem saturateColor_within (component : Nat) :
    Within Framed (saturateColor value component) :=
  (saturate_within (by omega) ..).bind fun _ => .pure _

theorem saturateSz_within : Within Framed (saturateSz value) :=
  (saturate_within (by decide) ..).bind fun _ => .pure _

theorem checkMacOverflow_within {macNum : Nat} (h : 0 < macNum) :
    Within Framed (checkMacOverflow value macNum) :=
  (raiseIf_within (by omega)).seq (raiseIf_within (by omega))

theorem checkMac0Overflow_within : Within Framed (checkMac0Overflow value) :=
  (raiseIf_within (by decide)).seq (raiseIf_within (by decide))

theorem pushSxy_within (sx sy : Int) : Within Framed (pushSxy sx sy) :=
  (saturate_within (by decide) ..).bind fun _ =>
    (saturate_within (by decide) ..).bind fun _ => .modify fun _ => ⟨rfl, fun _ => rfl, rfl⟩

theorem pushSz_within : Within Framed (pushSz value) :=
  Within.seq (.modify fun _ => ⟨rfl, id, rfl⟩) <|
    (saturateSz_within value).bind fun _ => .modify fun _ => ⟨rfl, id, rfl⟩

theorem pushRgb_within (r g b : BitVec 8) : Within Framed (pushRgb r g b) :=
  .modify fun _ => ⟨rfl, id, rfl⟩

theorem gteDivide_within (h sz3 : BitVec 16) : Within Framed (gteDivide h sz3) :=
  .ite ((raise_within (by decide)).seq (.pure _)) (.pure _)

theorem setMacs_within (mac : Vec) : Within Framed (setMacs mac) := .modify fun _ => ⟨rfl, id, rfl⟩

theorem setIrs_within (v : Vec) (lm : Bool) : Within Framed (setIrs v lm) :=
  (saturateIr_within ..).bind fun _ => (saturateIr_within ..).bind fun _ =>
    (saturateIr_within ..).bind fun _ => .modify fun _ => ⟨rfl, id, rfl⟩

theorem setMacsIrs_within (mac : Vec) (lm : Bool) : Within Framed (setMacsIrs mac lm) :=
  (setMacs_within mac).seq (.get_bind fun _ => setIrs_within ..)

theorem pushMacs_within : Within Framed pushMacs :=
  .get_bind fun _ => (saturateColor_within ..).bind fun _ => (saturateColor_within ..).bind fun _ =>
    (saturateColor_within ..).bind fun _ => pushRgb_within ..

theorem lightTransform_within (v : Vec) : Within Framed (lightTransform v) :=
  .get_bind fun _ => setMacsIrs_within ..

theorem lightColor_within : Within Framed lightColor := .get_bind fun _ => setMacsIrs_within ..

theorem colorOutput_within : Within Framed colorOutput :=
  .get_bind fun _ => (setMacsIrs_within ..).seq pushMacs_within

theorem depthCueFromIr_within : Within Framed depthCueFromIr :=
  .get_bind fun _ => setMacsIrs_within ..

theorem depthCue_within (hDivSz : Int) : Within Framed (depthCue hDivSz) :=
  .get_bind fun _ => (checkMac0Overflow_within _).seq <|
    Within.seq (.modify fun _ => ⟨rfl, id, rfl⟩) <|
      (saturateIr0_within _).bind fun _ => .modify fun _ => ⟨rfl, id, rfl⟩

theorem gteRtpsInternal_within (W : Widescreen) (v : Vec) (setMac0 : Bool) :
    Within Framed (gteRtpsInternal W v setMac0) :=
  .get_bind fun _ => (checkMacOverflow_within _ (by decide)).seq <|
    (checkMacOverflow_within _ (by decide)).seq <|
    (checkMacOverflow_within _ (by decide)).seq <|
    (setMacsIrs_within ..).seq <| .get_bind fun _ => (pushSz_within _).seq <|
    .get_bind fun _ => (gteDivide_within ..).bind fun _ =>
    (pushSxy_within ..).seq (.ite (depthCue_within _) (.pure _))

theorem gteNccsInternal_within (v : Vec) : Within Framed (gteNccsInternal v) :=
  (lightTransform_within v).seq (lightColor_within.seq colorOutput_within)

theorem gteNcdsInternal_within (v : Vec) : Within Framed (gteNcdsInternal v) :=
  (lightTransform_within v).seq
    (lightColor_within.seq (depthCueFromIr_within.seq colorOutput_within))

theorem gteNcsInternal_within (v : Vec) : Within Framed (gteNcsInternal v) :=
  (lightTransform_within v).seq (lightColor_within.seq pushMacs_within)

theorem averageZ_within (mac0 : Int) : Within Framed (averageZ mac0) :=
  (checkMac0Overflow_within _).seq <| Within.seq (.modify fun _ => ⟨rfl, id, rfl⟩) <|
    .get_bind fun _ => (saturateSz_within _).bind fun _ => .modify fun _ => ⟨rfl, id, rfl⟩

theorem cueColor_within (color : Word) : Within Framed (cueColor color) :=
  (setIrs_within ..).seq (depthCueFromIr_within.seq pushMacs_within)

theorem triple_within {f g h : Vec → GteM Unit} (hf : ∀ v, Within Framed (f v))
    (hg : ∀ v, Within Framed (g v)) (hh : ∀ v, Within Framed (h v)) :
    Within Framed (triple f g h) :=
  .get_bind fun _ => (hf _).seq ((hg _).seq (hh _))

variable {W : Widescreen} {cmd : Word}

/-- A command writes results only: the two FIFOs and `SZ`, `IR0..IR3`, `MAC0..MAC3`, `OTZ`, `FLAG`. That
is a preorder, so it is proved for each statement once. -/
theorem gteCommand_within {c : GteM Unit}
    (h : gteCommand W cmd = some c) : ∃ body, c = command body ∧ Within Framed body := by
  unfold gteCommand at h
  split at h
  case h_23 => cases h
  all_goals obtain rfl := Option.some.inj h
  case h_1 => exact ⟨_, rfl, .get_bind fun _ => gteRtpsInternal_within ..⟩
  case h_2 =>
    exact ⟨_, rfl, .get_bind fun _ =>
      (checkMac0Overflow_within _).seq (.modify fun _ => ⟨rfl, id, rfl⟩)⟩
  case h_3 | h_14 => exact ⟨_, rfl, .get_bind fun _ => setMacsIrs_within ..⟩
  case h_4 => exact ⟨_, rfl, .get_bind fun _ => cueColor_within _⟩
  case h_5 => exact ⟨_, rfl, depthCueFromIr_within.seq pushMacs_within⟩
  case h_6 =>
    exact ⟨_, rfl, .get_bind fun _ => (checkMacOverflow_within _ (by decide)).seq <|
      (checkMacOverflow_within _ (by decide)).seq <|
      (checkMacOverflow_within _ (by decide)).seq (setMacsIrs_within ..)⟩
  case h_7 => exact ⟨_, rfl, .get_bind fun _ => gteNcdsInternal_within _⟩
  case h_8 =>
    exact ⟨_, rfl, lightColor_within.seq (depthCueFromIr_within.seq colorOutput_within)⟩
  case h_9 =>
    exact ⟨_, rfl, triple_within gteNcdsInternal_within gteNcdsInternal_within gteNcdsInternal_within⟩
  case h_10 => exact ⟨_, rfl, .get_bind fun _ => gteNccsInternal_within _⟩
  case h_11 => exact ⟨_, rfl, lightColor_within.seq colorOutput_within⟩
  case h_12 => exact ⟨_, rfl, .get_bind fun _ => gteNcsInternal_within _⟩
  case h_13 =>
    exact ⟨_, rfl, triple_within gteNcsInternal_within gteNcsInternal_within gteNcsInternal_within⟩
  case h_15 =>
    exact ⟨_, rfl, .get_bind fun _ => (setMacsIrs_within ..).seq <|
      depthCueFromIr_within.seq pushMacs_within⟩
  case h_16 => exact ⟨_, rfl, .forM (fun _ => .get_bind fun _ => cueColor_within _) _⟩
  case h_17 | h_18 => exact ⟨_, rfl, .get_bind fun _ => averageZ_within _⟩
  case h_19 =>
    exact ⟨_, rfl, triple_within (gteRtpsInternal_within W · _) (gteRtpsInternal_within W · _)
      (gteRtpsInternal_within W · _)⟩
  case h_20 | h_21 => exact ⟨_, rfl, .get_bind fun _ => (setMacsIrs_within ..).seq pushMacs_within⟩
  case h_22 =>
    exact ⟨_, rfl, triple_within gteNccsInternal_within gteNccsInternal_within gteNccsInternal_within⟩

def ErrorFlag (k : Nat) : Prop := 23 ≤ k ∧ k ≤ 30 ∨ 13 ≤ k ∧ k ≤ 18

instance : DecidablePred ErrorFlag := fun _ => inferInstanceAs (Decidable (_ ∨ _))

def Summed (flag : Word) : Prop :=
  flag.getLsbD 31 = true ↔ ∃ k, ErrorFlag k ∧ flag.getLsbD k = true

theorem getLsbD_flagErrorMask : ∀ k, flagErrorMask.getLsbD k = decide (ErrorFlag k) := by
  have hword : ∀ k < 32, flagErrorMask.getLsbD k = decide (ErrorFlag k) := by decide
  intro k
  by_cases hk : k < 32
  · exact hword k hk
  · have hbig : ¬ErrorFlag k := by
      unfold ErrorFlag
      omega
    rw [getLsbD_of_ge _ _ (by omega), decide_eq_false hbig]

theorem and_flagErrorMask_ne_zero_iff (flag : Word) :
    flag &&& flagErrorMask ≠ 0 ↔ ∃ k, ErrorFlag k ∧ flag.getLsbD k = true := by
  constructor
  · intro hne
    by_contra hnone
    apply hne
    ext k hk
    rw [← getLsbD_eq_getElem, getLsbD_and, getLsbD_flagErrorMask]
    by_cases hflag : ErrorFlag k
    · have hclear : flag.getLsbD k = false := by
        by_contra hset
        exact hnone ⟨k, hflag, by simpa using hset⟩
      simp [hclear]
    · simp [hflag]
  · rintro ⟨k, hflag, hset⟩ hzero
    have hk := congrArg (getLsbD · k) hzero
    simp [getLsbD_flagErrorMask, hflag, hset] at hk

theorem summed_of_clear {flag : Word} (h : flag.msb = false) :
    Summed (if flag &&& flagErrorMask ≠ 0 then flag ||| flagErrorBit else flag) := by
  have hclear : flag.getLsbD 31 = false := by rw [← h, msb_eq_getLsbD_last]
  have hone : ∀ k, flagErrorBit.getLsbD k = decide (k = 31) := fun k => by
    rw [show flagErrorBit = twoPow 32 31 by decide, getLsbD_twoPow]
    simp [eq_comm]
  split
  case isTrue hne =>
    obtain ⟨k, hflag, hset⟩ := (and_flagErrorMask_ne_zero_iff flag).mp hne
    refine iff_of_true ?_ ⟨k, hflag, ?_⟩
    · rw [getLsbD_or, hone]
      simp
    · rw [getLsbD_or, hset, Bool.true_or]
  case isFalse hzero =>
    rw [and_flagErrorMask_ne_zero_iff] at hzero
    exact iff_of_false (hclear ▸ Bool.false_ne_true) hzero

/-- `FLAG` is cleared before a command and summed up behind it, whatever it raises. -/
theorem command_run {body : GteM Unit} (h : Within Framed body) (s : GteState) :
    ∃ t, ((command body).run s).2 = t ∧ SameInputs s t ∧
      (s.SXY_3 = s.SXY_2 → t.SXY_3 = t.SXY_2) ∧ Summed t.FLAG := by
  have hbody := h.run { s with FLAG := 0 }
  have hclear := hbody.summary.trans (by exact msb_zero)
  have hstart : SameInputs s { s with FLAG := 0 } := rfl
  exact ⟨_, rfl, (hstart.trans hbody.inputs).trans rfl, hbody.mirror, summed_of_clear hclear⟩

/-! ## 6. Images that survive the round trip -/

/-- The two redundant fields agree with those they are computed from. -/
structure GteState.Coherent (s : GteState) : Prop where
  mirror : s.SXY_3 = s.SXY_2
  count : s.LZCR = lzcr s.LZCS

theorem lo16_setWidth (v : BitVec 16) : lo16 (v.setWidth 32) = v := by
  simp [lo16]

theorem lo16_signExtend (v : BitVec 16) : lo16 (v.signExtend 32) = v :=
  setWidth_signExtend_self (by decide) v

theorem orgb_signExtend (ir1 ir2 ir3 : BitVec 16) :
    orgb (lo16 (ir1.signExtend 32)) (lo16 (ir2.signExtend 32)) (lo16 (ir3.signExtend 32)) =
      orgb ir1 ir2 ir3 := by
  rw [lo16_signExtend, lo16_signExtend, lo16_signExtend]

theorem canon_gteStoreData (h : s.Coherent) : (gteStoreData s).canon = gteStoreData s := by
  apply Gte.ext
  · funext ⟨n⟩
    fin_cases n
    case «1» | «3» | «5» | «7» | «16» | «17» | «18» | «19» =>
      exact congrArg (setWidth 32) (lo16_setWidth _)
    case «8» | «9» | «10» | «11» => exact congrArg (signExtend 32) (lo16_signExtend _)
    case «15» => exact h.mirror.symm
    case «28» | «29» => exact orgb_signExtend ..
    case «31» => exact h.count.symm
    all_goals rfl
  · funext ⟨n⟩
    fin_cases n
    case «4» | «12» | «20» | «26» => exact congrArg (setWidth 32) (lo16_setWidth _)
    case «27» | «29» | «30» => exact congrArg (signExtend 32) (lo16_signExtend _)
    all_goals rfl

/-- An image that one of the three entry points stored back, from any image. -/
inductive Stored : Gte → Prop
  | writeData (g : Gte) (r : Reg) (v : Word) : Stored (gteWriteData g r v)
  | writeCtrl (g : Gte) (r : Reg) (v : Word) : Stored (gteWriteCtrl g r v)
  | execute {W : Widescreen} {cmd : Word} {g g' : Gte} : gteExecute W cmd g = some g' → Stored g'

theorem ofRegs_coherent (g : Gte) : (GteState.ofRegs g).Coherent := ⟨rfl, rfl⟩

theorem gteMtc2_coherent (g : Gte) (r : Reg) (v : Word) : (gteMtc2 (.ofRegs g) r v).Coherent := by
  by_cases h15 : r = 15
  · subst h15
    exact ⟨rfl, rfl⟩
  by_cases h28 : r = 28
  · subst h28
    exact ⟨rfl, rfl⟩
  · rw [gteMtc2_ofRegs g v h15 h28]
    exact ofRegs_coherent _

theorem gteCtc2_coherent (g : Gte) (r : Reg) (v : Word) : (gteCtc2 (.ofRegs g) r v).Coherent := by
  by_cases h31 : r = 31
  · subst h31
    exact ⟨rfl, rfl⟩
  · rw [gteCtc2_ofRegs g v h31]
    exact ofRegs_coherent _

theorem command_run_flag (body : GteM Unit) (s : GteState) (flag : Word) :
    (command body).run { s with FLAG := flag } = (command body).run s := rfl

theorem SameInputs.count (h : SameInputs s t) (hs : s.LZCR = lzcr s.LZCS) :
    t.LZCR = lzcr t.LZCS := by
  rw [h]
  exact hs

variable {g : Gte}

theorem gteExecute_eq {g' : Gte} (h : gteExecute W cmd g = some g') :
    ∃ t, g' = gteStoreData t ∧ SameInputs (.ofRegs g) t ∧ t.SXY_3 = t.SXY_2 ∧ Summed t.FLAG := by
  obtain ⟨c, hc, hstore⟩ := Option.map_eq_some_iff.mp h
  obtain ⟨body, rfl, hbody⟩ := gteCommand_within hc
  obtain ⟨t, hrun, hsame, hkeeps, hflag⟩ := command_run hbody (.ofRegs g)
  have hload : (command body).run (gteLoadData g) = _ := command_run_flag body _ (g.ctrl 31)
  rw [← hload, gteLoadData_eq, hrun] at hstore
  exact ⟨t, hstore.symm, hsame, hkeeps (ofRegs_coherent g).mirror, hflag⟩

theorem Stored.coherent (h : Stored g) : ∃ s, GteState.Coherent s ∧ g = gteStoreData s := by
  cases h with
  | writeData g r v => exact ⟨_, gteMtc2_coherent g r v, by rw [gteWriteData, gteLoadData_eq]⟩
  | writeCtrl g r v => exact ⟨_, gteCtc2_coherent g r v, by rw [gteWriteCtrl, gteLoadData_eq]⟩
  | @execute W cmd g g' h =>
    obtain ⟨t, rfl, hinputs, hmirror, -⟩ := gteExecute_eq h
    exact ⟨t, ⟨hmirror, hinputs.count (ofRegs_coherent g).count⟩, rfl⟩

theorem Stored.canon (h : Stored g) : g.canon = g := by
  obtain ⟨s, hs, rfl⟩ := h.coherent
  exact canon_gteStoreData hs

/-! ## 7. What a register write changes -/

def dependents : Reg → List Reg
  | 9 | 10 | 11 => [28, 29]
  | 14 => [15]
  | 15 => [12, 13, 14]
  | 28 => [9, 10, 11, 29]
  | 30 => [31]
  | _ => []

/-- `g'` is `g` after a write of `v` to data register `r`: only `r` and its dependents moved, and
every dependent is what it follows from. -/
structure DataWrite (g : Gte) (r : Reg) (v : Word) (g' : Gte) : Prop where
  others : ∀ i, i ≠ r → i ∉ dependents r → g'.data i = g.data i
  ctrl : g'.ctrl = g.ctrl
  mirror : g'.data 15 = g'.data 14
  shift : r = 15 → g'.data 12 = g.data 13 ∧ g'.data 13 = g.data 14 ∧ g'.data 14 = v
  irgb : r = 28 → g'.data 9 = (irgbField v 0).signExtend 32 ∧
    g'.data 10 = (irgbField v 5).signExtend 32 ∧ g'.data 11 = (irgbField v 10).signExtend 32
  color : ∀ i, i = 28 ∨ i = 29 →
    g'.data i = orgb (lo16 (g'.data 9)) (lo16 (g'.data 10)) (lo16 (g'.data 11))
  count : g'.data 31 = lzcr (g'.data 30)

variable {i : Reg}

theorem seenData_setData (g : Gte) {r : Reg} (v : Word) (hir : i ≠ r) (hi : i ∉ dependents r) :
    (g.setData r v).seenData i = g.seenData i := by
  have h15 : i = 15 → (14 : Reg) ≠ r := by
    rintro rfl rfl
    exact hi (by decide)
  have h28 : i = 28 ∨ i = 29 → (9 : Reg) ≠ r ∧ (10 : Reg) ≠ r ∧ (11 : Reg) ≠ r := by
    rintro (rfl | rfl) <;> refine ⟨?_, ?_, ?_⟩ <;> rintro rfl <;> exact hi (by decide)
  have h31 : i = 31 → (30 : Reg) ≠ r := by
    rintro rfl rfl
    exact hi (by decide)
  unfold Gte.seenData Gte.setData
  simp only [update_of_ne hir]
  split_ifs with _ _ hi15 _ hi28 hi31
  · rfl
  · rfl
  · exact update_of_ne (h15 hi15) ..
  · rfl
  · obtain ⟨h9, h10, h11⟩ := h28 hi28
    rw [update_of_ne h9, update_of_ne h10, update_of_ne h11]
  · rw [update_of_ne (h31 hi31)]
  · rfl

theorem gteMfc2_of_canon (h : g.canon = g) (i : Reg) : gteMfc2 (.ofRegs g) i = g.data i :=
  (gteMfc2_ofRegs g i).trans (congrFun (congrArg Gte.data h) i)

theorem gteCfc2_of_canon (h : g.canon = g) (i : Reg) : gteCfc2 (.ofRegs g) i = g.ctrl i :=
  (gteCfc2_ofRegs g i).trans (congrFun (congrArg Gte.ctrl h) i)

theorem gteMfc2_push (s : GteState) (a b c d : Word) (hne : i ≠ 15) (hi : i ∉ dependents 15) :
    gteMfc2 { s with SXY_0 := a, SXY_1 := b, SXY_2 := c, SXY_3 := d } i = gteMfc2 s i := by
  unfold gteMfc2
  split
  case h_13 | h_14 | h_15 => exact absurd (by decide) hi
  case h_16 => exact absurd rfl hne
  all_goals rfl

theorem gteMfc2_irgb (s : GteState) (a b c : BitVec 16) (hne : i ≠ 28) (hi : i ∉ dependents 28) :
    gteMfc2 { s with IR1 := a, IR2 := b, IR3 := c } i = gteMfc2 s i := by
  unfold gteMfc2
  split
  case h_10 | h_11 | h_12 | h_30 => exact absurd (by decide) hi
  case h_29 => exact absurd rfl hne
  all_goals rfl

theorem gteWriteData_others (h : g.canon = g) {r : Reg} (v : Word) (hir : i ≠ r)
    (hi : i ∉ dependents r) : (gteWriteData g r v).data i = g.data i := by
  have hseen := gteMfc2_of_canon h i
  rw [gteWriteData, gteLoadData_eq]
  by_cases h15 : r = 15
  · subst h15
    exact (gteMfc2_push _ _ _ _ _ hir hi).trans hseen
  by_cases h28 : r = 28
  · subst h28
    exact (gteMfc2_irgb _ _ _ _ hir hi).trans hseen
  · rw [gteMtc2_ofRegs g v h15 h28, gteStoreData_ofRegs]
    exact (seenData_setData g v hir hi).trans ((gteMfc2_ofRegs g i).symm.trans hseen)

theorem gteWriteData_ctrl (h : g.canon = g) (r : Reg) (v : Word) :
    (gteWriteData g r v).ctrl = g.ctrl := by
  have hseen : g.seenCtrl = g.ctrl := congrArg Gte.ctrl h
  have hctrl := funext (gteCfc2_of_canon h)
  rw [gteWriteData, gteLoadData_eq]
  by_cases h15 : r = 15
  · subst h15
    exact hctrl
  by_cases h28 : r = 28
  · subst h28
    exact hctrl
  · rw [gteMtc2_ofRegs g v h15 h28, gteStoreData_ofRegs]
    exact hseen

theorem gteWriteData_write (h : g.canon = g) (r : Reg) (v : Word) :
    DataWrite g r v (gteWriteData g r v) := by
  have hseen := ((canon_eq_self_iff _).mp (Stored.writeData g r v).canon).1
  refine ⟨fun i => gteWriteData_others h v, gteWriteData_ctrl h r v, hseen 15, ?_, ?_, ?_, hseen 31⟩
  · rintro rfl
    exact ⟨rfl, rfl, rfl⟩
  · rintro rfl
    exact ⟨rfl, rfl, rfl⟩
  · rintro i (rfl | rfl)
    · exact hseen 28
    · exact hseen 29

/-! ## 8. The register file is lossless and framed -/

/-- The inputs of the commands among the data registers: `V0..V2`, `RGBC`, `LZCS` and its count. -/
def inputData : List Reg := [0, 1, 2, 3, 4, 5, 6, 30, 31]

theorem SameInputs.gteCfc2_eq (h : SameInputs s t) (hi : i ≠ 31) : gteCfc2 t i = gteCfc2 s i := by
  rw [h]
  unfold gteCfc2
  split
  case h_32 => exact absurd rfl hi
  all_goals rfl

theorem SameInputs.gteMfc2_eq (h : SameInputs s t) (hi : i ∈ inputData) : gteMfc2 t i = gteMfc2 s i := by
  rw [h]
  unfold gteMfc2
  split
  case h_1 | h_2 | h_3 | h_4 | h_5 | h_6 | h_7 | h_31 | h_32 | h_33 => rfl
  all_goals exact absurd hi (by decide)

theorem gteWriteCtrl_others (h : g.canon = g) (r : Reg) (v : Word) :
    (gteWriteCtrl g r v).data = g.data ∧
      ∀ i, i ≠ r → (gteWriteCtrl g r v).ctrl i = g.ctrl i := by
  rw [gteWriteCtrl, gteLoadData_eq]
  by_cases h31 : r = 31
  · subst h31
    -- the write to `FLAG` reaches no data register
    have hsame : SameInputs (.ofRegs g) (gteCtc2 (.ofRegs g) 31 v) := rfl
    have hdata := funext (gteMfc2_of_canon h)
    exact ⟨hdata, fun i hi => (hsame.gteCfc2_eq hi).trans (gteCfc2_of_canon h i)⟩
  · rw [gteCtc2_ofRegs g v h31, gteStoreData_ofRegs]
    have hdata : g.seenData = g.data := congrArg Gte.data h
    refine ⟨hdata, fun i hi => ?_⟩
    change (g.setCtrl r v).seenCtrl i = _
    rw [← gteCfc2_of_canon h, gteCfc2_ofRegs]
    simp [Gte.seenCtrl, Gte.setCtrl, update_of_ne hi]

/-- `g'` is `g` after a command: the inputs are those of `g`, and the summary of `FLAG` is true. -/
structure CommandRun (g g' : Gte) : Prop where
  ctrl : ∀ i, i ≠ 31 → g'.ctrl i = g.ctrl i
  data : ∀ i ∈ inputData, g'.data i = g.data i
  flag : Summed (g'.ctrl 31)

theorem gteExecute_run {g' : Gte} (h : g.canon = g)
    (hrun : gteExecute W cmd g = some g') : CommandRun g g' := by
  obtain ⟨t, rfl, hinputs, -, hflag⟩ := gteExecute_eq hrun
  refine ⟨fun i hi => ?_, fun i hi => ?_, hflag⟩
  · exact (hinputs.gteCfc2_eq hi).trans (gteCfc2_of_canon h i)
  · exact (hinputs.gteMfc2_eq hi).trans (gteMfc2_of_canon h i)

/-- Every image an entry point stored survives a load and a store. A write to a data register changes
it and what follows it, and no control register; a write to a control register changes that register
only; a command changes no input and leaves a true error summary. -/
theorem register_file_framed {g : Gte} (h : Stored g) :
    gteStoreData (gteLoadData g) = g ∧
    (∀ r v, DataWrite g r v (gteWriteData g r v)) ∧
    (∀ r v, (gteWriteCtrl g r v).data = g.data ∧
      ∀ i, i ≠ r → (gteWriteCtrl g r v).ctrl i = g.ctrl i) ∧
    ∀ W cmd g', gteExecute W cmd g = some g' → CommandRun g g' := by
  have hcanon := h.canon
  refine ⟨?_, gteWriteData_write hcanon, gteWriteCtrl_others hcanon, fun W cmd g' => ?_⟩
  · rw [gteLoadData_eq, gteStoreData_ofRegs, hcanon]
  · exact gteExecute_run hcanon

def squashOff : Widescreen :=
  { xnum := 1, xden := 1, presentNative43 := false, suppress := false, farThreshold := 900 }

/-- The cleared register file after a write of `LZCS`. -/
def writtenImage : Gte := gteWriteData ⟨fun _ => 0, fun _ => 0⟩ 30 5

/-- An `RTPS` on a written image. -/
theorem register_file_framed_rtps :
    Stored writtenImage ∧
    ∃ g', gteExecute squashOff 0x01 writtenImage = some g' ∧ CommandRun writtenImage g' :=
  have hstored : Stored writtenImage := .writeData ..
  have hrun : gteExecute squashOff 0x01 writtenImage = some _ := rfl
  ⟨hstored, _, hrun, (register_file_framed hstored).2.2.2 squashOff 0x01 _ hrun⟩

end PsxRecomp
