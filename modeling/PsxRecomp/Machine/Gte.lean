import Mathlib.Tactic.FinCases
import Mathlib.Tactic.SplitIfs
import PsxRecomp.Machine.Cpu

/-!
# `Machine/Gte.lean` — the GTE register file behind MTC2, MFC2, CTC2 and CFC2

`runtime/src/gte.cpp`, its register part. `CPUState` stores the 64 COP2 registers as raw words; every
access through the helpers rebuilds a `GTEState` from them, moves one register, and (for a write) stores
all 64 back. What comes back is not what was there: a 16-bit register loses its upper half, `SXYP`
becomes a copy of `SXY2`, `IRGB` and `ORGB` are recomputed from `IR1..IR3`, `LZCR` from `LZCS`.
-/

set_option autoImplicit false

namespace PsxRecomp

open BitVec

/-! ## 1. `GTEState` -/

/-- The C struct, one field for each array element. A new one is zeroed. -/
structure GteState where
  (V0_0 V0_1 V0_2 V1_0 V1_1 V1_2 V2_0 V2_1 V2_2 : BitVec 16)
  (SXY_0 SXY_1 SXY_2 SXY_3 : Word)
  (SZ_0 SZ_1 SZ_2 SZ_3 : BitVec 16)
  RGBC : Word
  (RGB_0 RGB_1 RGB_2 : Word)
  (RT_0_0 RT_0_1 RT_0_2 RT_1_0 RT_1_1 RT_1_2 RT_2_0 RT_2_1 RT_2_2 : BitVec 16)
  (TR_0 TR_1 TR_2 : Word)
  (L_0_0 L_0_1 L_0_2 L_1_0 L_1_1 L_1_2 L_2_0 L_2_1 L_2_2 : BitVec 16)
  (BK_0 BK_1 BK_2 : Word)
  (LC_0_0 LC_0_1 LC_0_2 LC_1_0 LC_1_1 LC_1_2 LC_2_0 LC_2_1 LC_2_2 : BitVec 16)
  (FC_0 FC_1 FC_2 : Word)
  (OFX OFY : Word)
  (H DQA : BitVec 16)
  DQB : Word
  (ZSF3 ZSF4 : BitVec 16)
  (IR0 IR1 IR2 IR3 : BitVec 16)
  (MAC0 MAC1 MAC2 MAC3 : Word)
  OTZ : BitVec 16
  (LZCS LZCR : Word)
  FLAG : Word
  deriving Inhabited

def lo16 (v : Word) : BitVec 16 := v.setWidth 16
def hi16 (v : Word) : BitVec 16 := (v >>> 16).setWidth 16

/-- `(hi << 16) | lo` on two 16-bit fields. -/
def pack16 (hi lo : BitVec 16) : Word := (hi.setWidth 32 <<< 16) ||| lo.setWidth 32

/-- `while (!(v & 0x80000000)) { v <<= 1; cnt++; }`, at most `fuel` rounds. -/
def lzLoop : Nat → Word → Word → Word
  | 0, _, cnt => cnt
  | fuel + 1, v, cnt => if v.msb then cnt else lzLoop fuel (v <<< 1) (cnt + 1)

/-- Leading bits equal to the sign bit, as the write of `LZCS` counts them. A non-zero word has a
set bit among its 32, so 32 rounds are enough for the loop. -/
def lzcr (value : Word) : Word :=
  let v := if value.msb then ~~~value else value
  if v = 0#32 then 32 else lzLoop 32 v 0

/-- `std::clamp((int)(ir >> 7), 0, 0x1F)` -/
def clamp5 (ir : BitVec 16) : Word :=
  let v := (ir.signExtend 32).sshiftRight 7
  if v.slt 0#32 then 0 else if (0x1F#32).slt v then 0x1F else v

/-- The packed colour `IRGB` and `ORGB` read as. -/
def orgb (ir1 ir2 ir3 : BitVec 16) : Word :=
  (clamp5 ir3 <<< 10) ||| (clamp5 ir2 <<< 5) ||| clamp5 ir1

/-- One 5-bit component written through `IRGB`. -/
def irgbField (value : Word) (shift : Nat) : BitVec 16 :=
  (((value >>> shift) &&& 0x1F) <<< 7).setWidth 16

/-! ## 2. The four transfers -/

def gteMtc2 (g : GteState) (reg : Reg) (value : Word) : GteState :=
  match reg with
  | 0 => { g with V0_0 := lo16 value, V0_1 := hi16 value }
  | 1 => { g with V0_2 := lo16 value }
  | 2 => { g with V1_0 := lo16 value, V1_1 := hi16 value }
  | 3 => { g with V1_2 := lo16 value }
  | 4 => { g with V2_0 := lo16 value, V2_1 := hi16 value }
  | 5 => { g with V2_2 := lo16 value }
  | 6 => { g with RGBC := value }
  | 7 => { g with OTZ := lo16 value }
  | 8 => { g with IR0 := lo16 value }
  | 9 => { g with IR1 := lo16 value }
  | 10 => { g with IR2 := lo16 value }
  | 11 => { g with IR3 := lo16 value }
  | 12 => { g with SXY_0 := value }
  | 13 => { g with SXY_1 := value }
  | 14 => { g with SXY_2 := value, SXY_3 := value }
  | 15 =>
    -- SXYP pushes the FIFO
    { g with SXY_0 := g.SXY_1, SXY_1 := g.SXY_2, SXY_2 := value, SXY_3 := value }
  | 16 => { g with SZ_0 := lo16 value }
  | 17 => { g with SZ_1 := lo16 value }
  | 18 => { g with SZ_2 := lo16 value }
  | 19 => { g with SZ_3 := lo16 value }
  | 20 => { g with RGB_0 := value }
  | 21 => { g with RGB_1 := value }
  | 22 => { g with RGB_2 := value }
  | 24 => { g with MAC0 := value }
  | 25 => { g with MAC1 := value }
  | 26 => { g with MAC2 := value }
  | 27 => { g with MAC3 := value }
  | 28 => { g with IR1 := irgbField value 0, IR2 := irgbField value 5, IR3 := irgbField value 10 }
  | 30 => { g with LZCS := value, LZCR := lzcr value }
  | _ =>
    -- RES1, ORGB and LZCR ignore writes
    g

def gteMfc2 (g : GteState) (reg : Reg) : Word :=
  match reg with
  | 0 => pack16 g.V0_1 g.V0_0
  | 1 => g.V0_2.setWidth 32
  | 2 => pack16 g.V1_1 g.V1_0
  | 3 => g.V1_2.setWidth 32
  | 4 => pack16 g.V2_1 g.V2_0
  | 5 => g.V2_2.setWidth 32
  | 6 => g.RGBC
  | 7 => g.OTZ.setWidth 32
  | 8 => g.IR0.signExtend 32
  | 9 => g.IR1.signExtend 32
  | 10 => g.IR2.signExtend 32
  | 11 => g.IR3.signExtend 32
  | 12 => g.SXY_0
  | 13 => g.SXY_1
  | 14 => g.SXY_2
  | 15 => g.SXY_3
  | 16 => g.SZ_0.setWidth 32
  | 17 => g.SZ_1.setWidth 32
  | 18 => g.SZ_2.setWidth 32
  | 19 => g.SZ_3.setWidth 32
  | 20 => g.RGB_0
  | 21 => g.RGB_1
  | 22 => g.RGB_2
  | 23 => 0
  | 24 => g.MAC0
  | 25 => g.MAC1
  | 26 => g.MAC2
  | 27 => g.MAC3
  | 28 => orgb g.IR1 g.IR2 g.IR3
  | 29 => orgb g.IR1 g.IR2 g.IR3
  | 30 => g.LZCS
  | 31 => g.LZCR
  | _ => 0

def gteCtc2 (g : GteState) (reg : Reg) (value : Word) : GteState :=
  match reg with
  | 0 => { g with RT_0_0 := lo16 value, RT_0_1 := hi16 value }
  | 1 => { g with RT_0_2 := lo16 value, RT_1_0 := hi16 value }
  | 2 => { g with RT_1_1 := lo16 value, RT_1_2 := hi16 value }
  | 3 => { g with RT_2_0 := lo16 value, RT_2_1 := hi16 value }
  | 4 => { g with RT_2_2 := lo16 value }
  | 5 => { g with TR_0 := value }
  | 6 => { g with TR_1 := value }
  | 7 => { g with TR_2 := value }
  | 8 => { g with L_0_0 := lo16 value, L_0_1 := hi16 value }
  | 9 => { g with L_0_2 := lo16 value, L_1_0 := hi16 value }
  | 10 => { g with L_1_1 := lo16 value, L_1_2 := hi16 value }
  | 11 => { g with L_2_0 := lo16 value, L_2_1 := hi16 value }
  | 12 => { g with L_2_2 := lo16 value }
  | 13 => { g with BK_0 := value }
  | 14 => { g with BK_1 := value }
  | 15 => { g with BK_2 := value }
  | 16 => { g with LC_0_0 := lo16 value, LC_0_1 := hi16 value }
  | 17 => { g with LC_0_2 := lo16 value, LC_1_0 := hi16 value }
  | 18 => { g with LC_1_1 := lo16 value, LC_1_2 := hi16 value }
  | 19 => { g with LC_2_0 := lo16 value, LC_2_1 := hi16 value }
  | 20 => { g with LC_2_2 := lo16 value }
  | 21 => { g with FC_0 := value }
  | 22 => { g with FC_1 := value }
  | 23 => { g with FC_2 := value }
  | 24 => { g with OFX := value }
  | 25 => { g with OFY := value }
  | 26 => { g with H := lo16 value }
  | 27 => { g with DQA := lo16 value }
  | 28 => { g with DQB := value }
  | 29 => { g with ZSF3 := lo16 value }
  | 30 => { g with ZSF4 := lo16 value }
  | 31 => { g with FLAG := value &&& 0x7FFFF000 }
  | _ => g

def gteCfc2 (g : GteState) (reg : Reg) : Word :=
  match reg with
  | 0 => pack16 g.RT_0_1 g.RT_0_0
  | 1 => pack16 g.RT_1_0 g.RT_0_2
  | 2 => pack16 g.RT_1_2 g.RT_1_1
  | 3 => pack16 g.RT_2_1 g.RT_2_0
  | 4 => g.RT_2_2.setWidth 32
  | 5 => g.TR_0
  | 6 => g.TR_1
  | 7 => g.TR_2
  | 8 => pack16 g.L_0_1 g.L_0_0
  | 9 => pack16 g.L_1_0 g.L_0_2
  | 10 => pack16 g.L_1_2 g.L_1_1
  | 11 => pack16 g.L_2_1 g.L_2_0
  | 12 => g.L_2_2.setWidth 32
  | 13 => g.BK_0
  | 14 => g.BK_1
  | 15 => g.BK_2
  | 16 => pack16 g.LC_0_1 g.LC_0_0
  | 17 => pack16 g.LC_1_0 g.LC_0_2
  | 18 => pack16 g.LC_1_2 g.LC_1_1
  | 19 => pack16 g.LC_2_1 g.LC_2_0
  | 20 => g.LC_2_2.setWidth 32
  | 21 => g.FC_0
  | 22 => g.FC_1
  | 23 => g.FC_2
  | 24 => g.OFX
  | 25 => g.OFY
  | 26 => g.H.setWidth 32
  | 27 => g.DQA.signExtend 32
  | 28 => g.DQB
  | 29 => g.ZSF3.signExtend 32
  | 30 => g.ZSF4.signExtend 32
  | 31 => g.FLAG
  | _ => 0

/-! ## 3. The accessors of `CPUState` -/

/-- The registers in the order the load loop visits them. -/
def regs : List Reg := (List.range 32).map (BitVec.ofNat 5)

/-- The first loop of `gte_load_data`. The write of `SXYP` would push the FIFO and the write of
`IRGB` would overwrite `IR1..IR3`, so it skips both. -/
def loadDataRegs (d : Reg → Word) (s : GteState) : GteState :=
  regs.foldl (fun s i => if i = 15 ∨ i = 28 then s else gteMtc2 s i (d i)) s

/-- The second loop of `gte_load_data`. -/
def loadCtrlRegs (d : Reg → Word) (s : GteState) : GteState :=
  regs.foldl (fun s i => gteCtc2 s i (d i)) s

/-- `gte_load_data`; the last line restores `FLAG` unmasked. -/
def gteLoadData (g : Gte) : GteState :=
  { loadCtrlRegs g.ctrl (loadDataRegs g.data default) with FLAG := g.ctrl 31 }

def gteStoreData (s : GteState) : Gte := ⟨gteMfc2 s, gteCfc2 s⟩

def gteReadData (g : Gte) (reg : Reg) : Word := gteMfc2 (gteLoadData g) reg
def gteReadCtrl (g : Gte) (reg : Reg) : Word := gteCfc2 (gteLoadData g) reg

def gteWriteData (g : Gte) (reg : Reg) (val : Word) : Gte :=
  gteStoreData (gteMtc2 (gteLoadData g) reg val)

def gteWriteCtrl (g : Gte) (reg : Reg) (val : Word) : Gte :=
  gteStoreData (gteCtc2 (gteLoadData g) reg val)

/-! ## 4. What the round trip does -/

def GteState.ofRegs (g : Gte) : GteState where
  V0_0 := lo16 (g.data 0)
  V0_1 := hi16 (g.data 0)
  V0_2 := lo16 (g.data 1)
  V1_0 := lo16 (g.data 2)
  V1_1 := hi16 (g.data 2)
  V1_2 := lo16 (g.data 3)
  V2_0 := lo16 (g.data 4)
  V2_1 := hi16 (g.data 4)
  V2_2 := lo16 (g.data 5)
  SXY_0 := g.data 12
  SXY_1 := g.data 13
  SXY_2 := g.data 14
  SXY_3 := g.data 14
  SZ_0 := lo16 (g.data 16)
  SZ_1 := lo16 (g.data 17)
  SZ_2 := lo16 (g.data 18)
  SZ_3 := lo16 (g.data 19)
  RGBC := g.data 6
  RGB_0 := g.data 20
  RGB_1 := g.data 21
  RGB_2 := g.data 22
  RT_0_0 := lo16 (g.ctrl 0)
  RT_0_1 := hi16 (g.ctrl 0)
  RT_0_2 := lo16 (g.ctrl 1)
  RT_1_0 := hi16 (g.ctrl 1)
  RT_1_1 := lo16 (g.ctrl 2)
  RT_1_2 := hi16 (g.ctrl 2)
  RT_2_0 := lo16 (g.ctrl 3)
  RT_2_1 := hi16 (g.ctrl 3)
  RT_2_2 := lo16 (g.ctrl 4)
  TR_0 := g.ctrl 5
  TR_1 := g.ctrl 6
  TR_2 := g.ctrl 7
  L_0_0 := lo16 (g.ctrl 8)
  L_0_1 := hi16 (g.ctrl 8)
  L_0_2 := lo16 (g.ctrl 9)
  L_1_0 := hi16 (g.ctrl 9)
  L_1_1 := lo16 (g.ctrl 10)
  L_1_2 := hi16 (g.ctrl 10)
  L_2_0 := lo16 (g.ctrl 11)
  L_2_1 := hi16 (g.ctrl 11)
  L_2_2 := lo16 (g.ctrl 12)
  BK_0 := g.ctrl 13
  BK_1 := g.ctrl 14
  BK_2 := g.ctrl 15
  LC_0_0 := lo16 (g.ctrl 16)
  LC_0_1 := hi16 (g.ctrl 16)
  LC_0_2 := lo16 (g.ctrl 17)
  LC_1_0 := hi16 (g.ctrl 17)
  LC_1_1 := lo16 (g.ctrl 18)
  LC_1_2 := hi16 (g.ctrl 18)
  LC_2_0 := lo16 (g.ctrl 19)
  LC_2_1 := hi16 (g.ctrl 19)
  LC_2_2 := lo16 (g.ctrl 20)
  FC_0 := g.ctrl 21
  FC_1 := g.ctrl 22
  FC_2 := g.ctrl 23
  OFX := g.ctrl 24
  OFY := g.ctrl 25
  H := lo16 (g.ctrl 26)
  DQA := lo16 (g.ctrl 27)
  DQB := g.ctrl 28
  ZSF3 := lo16 (g.ctrl 29)
  ZSF4 := lo16 (g.ctrl 30)
  IR0 := lo16 (g.data 8)
  IR1 := lo16 (g.data 9)
  IR2 := lo16 (g.data 10)
  IR3 := lo16 (g.data 11)
  MAC0 := g.data 24
  MAC1 := g.data 25
  MAC2 := g.data 26
  MAC3 := g.data 27
  OTZ := lo16 (g.data 7)
  LZCS := g.data 30
  LZCR := lzcr (g.data 30)
  FLAG := g.ctrl 31

variable (g : Gte)

theorem gteLoadData_eq : gteLoadData g = .ofRegs g := rfl

theorem gteMtc2_ofRegs {i : Reg} (v : Word) (h15 : i ≠ 15#5) (h28 : i ≠ 28#5) :
    gteMtc2 (.ofRegs g) i v = .ofRegs (g.setData i v) := by
  obtain ⟨n⟩ := i
  fin_cases n
  case «15» => exact absurd rfl h15
  case «28» => exact absurd rfl h28
  all_goals rfl

theorem gteCtc2_ofRegs {i : Reg} (v : Word) (h31 : i ≠ 31#5) :
    gteCtc2 (.ofRegs g) i v = .ofRegs (g.setCtrl i v) := by
  obtain ⟨n⟩ := i
  fin_cases n
  case «31» => exact absurd rfl h31
  all_goals rfl

theorem pack16_hi16_lo16 (v : Word) : pack16 (hi16 v) (lo16 v) = v := by
  unfold pack16 hi16 lo16
  ext i hi
  by_cases h : i < 16
  · simp [h, getLsbD_eq_getElem, hi]
  · have h2 : 16 + (i - 16) = i := by omega
    have h3 : i - 16 < 16 := by omega
    simp [h, h2, h3, getLsbD_eq_getElem, hi]

def low16 (v : Word) : Word := (lo16 v).setWidth 32

def sext16 (v : Word) : Word := (lo16 v).signExtend 32

/-- The 16-bit unsigned data registers: `VZ0`, `VZ1`, `VZ2`, `OTZ` and the `SZ` FIFO. -/
def unsigned16Data : List Reg := [1, 3, 5, 7, 16, 17, 18, 19]

/-- The 16-bit signed data registers: `IR0..IR3`. -/
def signed16Data : List Reg := [8, 9, 10, 11]

/-- The 16-bit unsigned control registers: `RT[2][2]`, `L[2][2]`, `LC[2][2]`, `H`. -/
def unsigned16Ctrl : List Reg := [4, 12, 20, 26]

/-- The 16-bit signed control registers: `DQA`, `ZSF3`, `ZSF4`. -/
def signed16Ctrl : List Reg := [27, 29, 30]

def Gte.seenData (g : Gte) (i : Reg) : Word :=
  if i ∈ unsigned16Data then low16 (g.data i)
  else if i ∈ signed16Data then sext16 (g.data i)
  else if i = 15 then g.data 14
  else if i = 23 then 0
  else if i = 28 ∨ i = 29 then orgb (lo16 (g.data 9)) (lo16 (g.data 10)) (lo16 (g.data 11))
  else if i = 31 then lzcr (g.data 30)
  else g.data i

def Gte.seenCtrl (g : Gte) (i : Reg) : Word :=
  if i ∈ unsigned16Ctrl then low16 (g.ctrl i)
  else if i ∈ signed16Ctrl then sext16 (g.ctrl i)
  else g.ctrl i

theorem gteMfc2_ofRegs (i : Reg) : gteMfc2 (.ofRegs g) i = g.seenData i := by
  obtain ⟨n⟩ := i
  fin_cases n
  case «0» | «2» | «4» => exact pack16_hi16_lo16 _
  all_goals rfl

theorem gteCfc2_ofRegs (i : Reg) : gteCfc2 (.ofRegs g) i = g.seenCtrl i := by
  obtain ⟨n⟩ := i
  fin_cases n
  case «0» | «1» | «2» | «3» | «8» | «9» | «10» | «11» | «16» | «17» | «18» | «19» =>
    exact pack16_hi16_lo16 _
  all_goals rfl

/-- A read returns what the round trip through a `GTEState` makes of the register. -/
theorem gteReadData_eq (i : Reg) : gteReadData g i = g.seenData i :=
  gteMfc2_ofRegs g i

theorem gteReadCtrl_eq (i : Reg) : gteReadCtrl g i = g.seenCtrl i :=
  gteCfc2_ofRegs g i

def Gte.canon (g : Gte) : Gte := ⟨g.seenData, g.seenCtrl⟩

theorem gteStoreData_ofRegs : gteStoreData (.ofRegs g) = g.canon :=
  Gte.ext (funext (gteMfc2_ofRegs g)) (funext (gteCfc2_ofRegs g))

/-- A write is a raw write followed by `canon`, but for the two registers whose write is not a store. -/
theorem gteWriteData_eq {i : Reg} (v : Word) (h15 : i ≠ 15#5) (h28 : i ≠ 28#5) :
    gteWriteData g i v = (g.setData i v).canon := by
  rw [gteWriteData, gteLoadData_eq, gteMtc2_ofRegs g v h15 h28, gteStoreData_ofRegs]

theorem gteWriteCtrl_eq {i : Reg} (v : Word) (h31 : i ≠ 31#5) :
    gteWriteCtrl g i v = (g.setCtrl i v).canon := by
  rw [gteWriteCtrl, gteLoadData_eq, gteCtc2_ofRegs g v h31, gteStoreData_ofRegs]

/-! ## 5. Register files the round trip leaves alone -/

theorem low16_eq_iff (v : Word) : low16 v = v ↔ v.toNat < 2 ^ 16 := by
  unfold low16 lo16
  rw [← toNat_inj]
  simp
  omega

theorem sext16_eq_iff (v : Word) : sext16 v = v ↔ -2 ^ 15 ≤ v.toInt ∧ v.toInt < 2 ^ 15 := by
  unfold sext16 lo16
  have h : (v.setWidth 16).toInt = v.toInt.bmod (2 ^ 16) := by
    rw [toInt_setWidth, toInt_eq_toNat_bmod, Int.bmod_bmod_of_dvd (by decide)]
  rw [← toInt_inj, toInt_signExtend_of_le (by decide), h]
  constructor
  · intro hb
    have hlt := Int.bmod_lt (x := v.toInt) (m := 2 ^ 16) (by decide)
    have hle := Int.le_bmod (x := v.toInt) (m := 2 ^ 16) (by decide)
    omega
  · intro hb
    apply Int.bmod_eq_of_le <;> omega

/-- The stored word of data register `i` is one the register can hold. -/
def Gte.DataCanonical (g : Gte) (i : Reg) : Prop :=
  if i ∈ unsigned16Data then (g.data i).toNat < 2 ^ 16
  else if i ∈ signed16Data then -2 ^ 15 ≤ (g.data i).toInt ∧ (g.data i).toInt < 2 ^ 15
  else if i = 15 then g.data i = g.data 14
  else if i = 23 then g.data i = 0
  else if i = 28 ∨ i = 29 then
    g.data i = orgb (lo16 (g.data 9)) (lo16 (g.data 10)) (lo16 (g.data 11))
  else if i = 31 then g.data i = lzcr (g.data 30)
  else True

/-- The stored word of control register `i` is one the register can hold. -/
def Gte.CtrlCanonical (g : Gte) (i : Reg) : Prop :=
  if i ∈ unsigned16Ctrl then (g.ctrl i).toNat < 2 ^ 16
  else if i ∈ signed16Ctrl then -2 ^ 15 ≤ (g.ctrl i).toInt ∧ (g.ctrl i).toInt < 2 ^ 15
  else True

def Gte.Canonical (g : Gte) : Prop := (∀ i, g.DataCanonical i) ∧ ∀ i, g.CtrlCanonical i

theorem seenData_eq_iff (i : Reg) : g.seenData i = g.data i ↔ g.DataCanonical i := by
  unfold Gte.seenData Gte.DataCanonical
  split_ifs
  · exact low16_eq_iff _
  · exact sext16_eq_iff _
  · exact eq_comm
  · exact eq_comm
  · exact eq_comm
  · exact eq_comm
  · exact iff_of_true rfl trivial

theorem seenCtrl_eq_iff (i : Reg) : g.seenCtrl i = g.ctrl i ↔ g.CtrlCanonical i := by
  unfold Gte.seenCtrl Gte.CtrlCanonical
  split_ifs
  · exact low16_eq_iff _
  · exact sext16_eq_iff _
  · exact iff_of_true rfl trivial

/-- The register files that the round trip leaves alone -/
theorem canon_eq_self_iff : g.canon = g ↔ g.Canonical := by
  rw [Gte.ext_iff, Gte.Canonical]
  exact and_congr (funext_iff.trans (forall_congr' (seenData_eq_iff g)))
    (funext_iff.trans (forall_congr' (seenCtrl_eq_iff g)))

end PsxRecomp
