import PsxRecomp.Lib.Linear
import PsxRecomp.Interp.ExecOne

/-!
# `Jit/Lir.lean` — the sljit instructions the overlay JIT emits

The subset of sljit's portable instruction set that `runtime/src/overlay_sljit.c` uses, on a 64-bit
host. `R_CPU` (`S0`) holds the `CPUState` pointer throughout and is not a register here; `R_CTRL` is
`S1`, and the GPR cache lives in `S2` and up (`HReg.slot`).

What the library leaves open is undefined here as well (`none`): a register nobody wrote or that a
call clobbered, flags after any instruction but the compare that set them, a shift count of 32 or
more, a division that the host traps on. So a proof that emitted code runs is also a proof that it
relies on none of these. A 32-bit result fills the register with zeros above.

The forward jumps inside the `DIV` and `DIVU` sequences go to labels of the same sequence and all
paths meet at its end; they are written as the choice they make (`Instr.select`). Jumps between
guest instructions are real jumps, to the label of a word of the fragment.
-/

set_option autoImplicit false

namespace PsxRecomp.Jit

open Linear

/-! ## 1. Instructions -/

inductive HReg where
  | r0 | r1 | r2
  /-- `R_CTRL`, the saved register `S1` -/
  | ctrl
  /-- `slot_reg(k)`, the saved register `S(k + 2)` -/
  | slot (k : Nat)
  deriving DecidableEq, Repr

/-- The words of `CPUState` that emitted code addresses directly. -/
inductive Field where
  | gpr (n : Reg) | hi | lo | pc
  deriving DecidableEq, Repr

inductive Opnd where
  | imm (w : Word)
  | reg (r : HReg)
  | mem (f : Field)
  deriving DecidableEq, Repr

/-- `SLJIT_ADD32` and its siblings. -/
inductive Op32 where
  | add | sub | and | or | xor | shl | lshr | ashr
  deriving DecidableEq, Repr

/-- The extending moves `SLJIT_MOV_S8` … `SLJIT_MOV_U32`. -/
inductive Ext where
  | s8 | u8 | s16 | u16 | s32 | u32
  deriving DecidableEq, Repr

inductive Cond where
  | equal | notEqual | less | sigLess | sigLessEqual | sigGreater | sigGreaterEqual
  deriving DecidableEq, Repr

inductive ReadFn where
  | byte | half | word
  deriving DecidableEq, Repr

inductive WriteFn where
  | byte | half | word
  deriving DecidableEq, Repr

/-- The helpers of `cpu->sljit_helpers` that take the instruction word. -/
inductive Helper where
  | memx | cop2
  deriving DecidableEq, Repr

inductive Op where
  /-- `SLJIT_MOV32` to a register -/
  | mov32 (d : HReg) (s : Opnd)
  /-- `SLJIT_MOV32` to a field of `CPUState` -/
  | store32 (f : Field) (s : Opnd)
  | movExt (e : Ext) (d : HReg) (s : Opnd)
  | op32 (o : Op32) (d : HReg) (a b : Opnd)
  /-- `SLJIT_MUL`, on the full registers -/
  | mul (d a b : HReg)
  /-- `SLJIT_LSHR`, on the full register -/
  | lshr (d a : HReg) (n : Nat)
  /-- `sljit_emit_op2u(SLJIT_SUB32 | SLJIT_SET_…)` -/
  | cmp32 (a b : Opnd)
  /-- `sljit_emit_op_flags(SLJIT_MOV32, …)` -/
  | setFlag (d : HReg) (cc : Cond)
  | divmodS32
  | divmodU32
  /-- `R1 = cpu->read_*;` and the call: `R0 = read(R0)` -/
  | icallRead (f : ReadFn)
  /-- `R2 = cpu->write_*;` and the call: `write(R0, R1)` -/
  | icallWrite (f : WriteFn)
  /-- `R0 = cpu; R1 = insn; R2 = helper;` and the call -/
  | icallHelper (f : Helper) (insn : Word)
  deriving DecidableEq, Repr

inductive Instr where
  | op (o : Op)
  /-- The first 32-bit compare that holds selects its code; otherwise the last piece runs. -/
  | select (arms : List ((Cond × HReg × Word) × List Op)) (els : List Op)
  /-- `sljit_emit_cmp(SLJIT_NOT_EQUAL, R_CTRL, 0, SLJIT_IMM, 0)` to the label of a word -/
  | jumpIf (l : Nat)
  | jump (l : Nat)
  /-- `sljit_emit_return_void` -/
  | ret
  deriving DecidableEq, Repr

/-! ## 2. The two helpers of the runtime -/

section
variable {M : Type} (R : Runtime M)

/-- `psx_sljit_cop2`: a `COP2` word with another operation does nothing. -/
def psxSljitCop2 (insn : Word) (cpu : Cpu M) : Cpu M :=
  let op := opField insn
  let rs := rsField insn
  let rt := rtField insn
  let rd := rdField insn
  if op = 0x12#6 then
    if rs = 0x00#5 then cpu.writeBack rt (gteReadData cpu.gte rd)
    else if rs = 0x02#5 then cpu.writeBack rt (gteReadCtrl cpu.gte rd)
    else if rs = 0x04#5 then { cpu with gte := gteWriteData cpu.gte rd (cpu.gpr rt) }
    else if rs = 0x06#5 then { cpu with gte := gteWriteCtrl cpu.gte rd (cpu.gpr rt) }
    else if rs &&& 0x10#5 ≠ 0#5 then { cpu with gte := R.gteExecute (gteCmd insn) cpu.gte }
    else cpu
  else
    let addr := cpu.gpr rs + simm16Field insn
    if op = 0x32#6 then
      let (v, cpu) := cpu.readWord R addr
      { cpu with gte := gteWriteData cpu.gte rt v }
    else if op = 0x3A#6 then cpu.writeWord R addr (gteReadData cpu.gte rt)
    else cpu

/-- `psx_sljit_memx`: the word is read first, whatever the operation. The four tables are those of
`lwl_merge`, `lwr_merge`, `interp_swl` and `interp_swr`, repeated in the source. -/
def psxSljitMemx (insn : Word) (cpu : Cpu M) : Cpu M :=
  let rt := rtField insn
  let addr := cpu.gpr (rsField insn) + simm16Field insn
  let aligned := addr &&& ~~~3
  let (word, cpu) := cpu.readWord R aligned
  let rtv := cpu.gpr rt
  match opField insn with
  | 0x22 => cpu.writeBack rt (lwlMerge addr word rtv)
  | 0x26 => cpu.writeBack rt (lwrMerge addr word rtv)
  | 0x2A => cpu.writeWord R aligned (swlMerge addr word rtv)
  | 0x2E => cpu.writeWord R aligned (swrMerge addr word rtv)
  | _ => cpu

/-! ## 3. Execution -/

/-- The host while emitted code runs. Nothing is known of a register that is `none`. -/
structure HState (M : Type) where
  cpu : Cpu M
  reg : HReg → Option (BitVec 64)
  /-- the operands of the compare the flags still hold -/
  flags : Option (Word × Word)

/-- At the entry of a fragment no register but `R_CPU` is set. -/
def HState.start (cpu : Cpu M) : HState M := ⟨cpu, fun _ => none, none⟩

namespace HState
variable (h : HState M)

def field : Field → Word
  | .gpr n => h.cpu.gpr n
  | .hi => h.cpu.hi
  | .lo => h.cpu.lo
  | .pc => h.cpu.pc

def val32 : Opnd → Option Word
  | .imm w => some w
  | .reg r => (h.reg r).map (BitVec.setWidth 32)
  | .mem f => some (h.field f)

def set64 (d : HReg) (v : BitVec 64) : HState M :=
  { h with reg := Function.update h.reg d (some v), flags := none }

def set32 (d : HReg) (v : Word) : HState M := h.set64 d (v.setWidth 64)

def setField (f : Field) (v : Word) : HState M :=
  match f with
  | .gpr n => { h with cpu := h.cpu.setGpr n v, flags := none }
  | .hi => { h with cpu := { h.cpu with hi := v }, flags := none }
  | .lo => { h with cpu := { h.cpu with lo := v }, flags := none }
  | .pc => { h with cpu := { h.cpu with pc := v }, flags := none }

/-- After a call: the saved registers keep their values, `R0` has the result, if any. -/
def afterCall (cpu : Cpu M) (r0 : Option Word) : HState M where
  cpu := cpu
  reg := fun
    | .r0 => r0.map (BitVec.setWidth 64)
    | .r1 | .r2 => none
    | .ctrl => h.reg .ctrl
    | .slot k => h.reg (.slot k)
  flags := none

end HState

def Op32.apply (o : Op32) (x y : Word) : Option Word :=
  match o with
  | .add => some (x + y)
  | .sub => some (x - y)
  | .and => some (x &&& y)
  | .or => some (x ||| y)
  | .xor => some (x ^^^ y)
  | .shl => if y.toNat < 32 then some (x <<< y.toNat) else none
  | .lshr => if y.toNat < 32 then some (x >>> y.toNat) else none
  | .ashr => if y.toNat < 32 then some (x.sshiftRight y.toNat) else none

def Ext.apply (e : Ext) (x : Word) : BitVec 64 :=
  match e with
  | .s8 => (x.setWidth 8).signExtend 64
  | .u8 => (x.setWidth 8).setWidth 64
  | .s16 => (x.setWidth 16).signExtend 64
  | .u16 => (x.setWidth 16).setWidth 64
  | .s32 => x.signExtend 64
  | .u32 => x.setWidth 64

def Cond.holds (cc : Cond) (x y : Word) : Bool :=
  match cc with
  | .equal => x == y
  | .notEqual => x != y
  | .less => x.ult y
  | .sigLess => x.slt y
  | .sigLessEqual => x.sle y
  | .sigGreater => y.slt x
  | .sigGreaterEqual => y.sle x

/-- The result is in `R0` as the callee's type has it; what is above it is not looked at. -/
def ReadFn.call (f : ReadFn) (addr : Word) (cpu : Cpu M) : Word × Cpu M :=
  match f with
  | .byte => let (v, cpu) := cpu.readByte R addr; (v.setWidth 32, cpu)
  | .half => let (v, cpu) := cpu.readHalf R addr; (v.setWidth 32, cpu)
  | .word => cpu.readWord R addr

def WriteFn.call (f : WriteFn) (addr v : Word) (cpu : Cpu M) : Cpu M :=
  match f with
  | .byte => cpu.writeByte R addr (v.setWidth 8)
  | .half => cpu.writeHalf R addr (v.setWidth 16)
  | .word => cpu.writeWord R addr v

def Helper.call (f : Helper) (insn : Word) (cpu : Cpu M) : Cpu M :=
  match f with
  | .memx => psxSljitMemx R insn cpu
  | .cop2 => psxSljitCop2 R insn cpu

def Op.exec (o : Op) (h : HState M) : Option (HState M) :=
  match o with
  | .mov32 d s => (h.val32 s).map (h.set32 d)
  | .store32 f s => (h.val32 s).map (h.setField f)
  | .movExt e d s => (h.val32 s).map fun v => h.set64 d (e.apply v)
  | .op32 o d a b =>
      (h.val32 a).bind fun x => (h.val32 b).bind fun y => (o.apply x y).map (h.set32 d)
  | .mul d a b => (h.reg a).bind fun x => (h.reg b).map fun y => h.set64 d (x * y)
  | .lshr d a n => (h.reg a).map fun (x : BitVec 64) => h.set64 d (x >>> n)
  | .cmp32 a b =>
      (h.val32 a).bind fun x => (h.val32 b).map fun y => { h with flags := some (x, y) }
  | .setFlag d cc => h.flags.map fun (x, y) => h.set32 d (flag (cc.holds x y))
  | .divmodS32 =>
      (h.val32 (.reg .r0)).bind fun a => (h.val32 (.reg .r1)).bind fun b =>
        if b = 0#32 ∨ (a = 0x80000000#32 ∧ b = -1) then none
        else some ((h.set32 .r0 (a.sdiv b)).set32 .r1 (a.srem b))
  | .divmodU32 =>
      (h.val32 (.reg .r0)).bind fun a => (h.val32 (.reg .r1)).bind fun b =>
        if b = 0#32 then none else some ((h.set32 .r0 (a / b)).set32 .r1 (a % b))
  | .icallRead f =>
      (h.val32 (.reg .r0)).map fun addr =>
        let (v, cpu) := f.call R addr h.cpu
        h.afterCall cpu (some v)
  | .icallWrite f =>
      (h.val32 (.reg .r0)).bind fun addr => (h.val32 (.reg .r1)).map fun v =>
        h.afterCall (f.call R addr v h.cpu) none
  | .icallHelper f insn => some (h.afterCall (f.call R insn h.cpu) none)

def execOps : List Op → HState M → Option (HState M)
  | [], h => some h
  | o :: os, h => (o.exec R h).bind (execOps os)

def execSelect : List ((Cond × HReg × Word) × List Op) → List Op → HState M → Option (HState M)
  | [], els, h => execOps R els h
  | ((cc, r, w), ops) :: arms, els, h =>
      (h.val32 (.reg r)).bind fun x =>
        if cc.holds x w then execOps R ops h else execSelect arms els h

def Instr.exec (i : Instr) (h : HState M) : Option (Flow Nat × HState M) :=
  match i with
  | .op o => (o.exec R h).map fun h => (.next, h)
  | .select arms els => (execSelect R arms els h).map fun h => (.next, h)
  | .jumpIf l =>
      (h.reg .ctrl).map fun x => (if x = 0#64 then .next else .goto l, { h with flags := none })
  | .jump l => some (.goto l, h)
  | .ret => some (.ret, h)

/-- The code of a fragment, run on `cpu` from its first instruction, returns `cpu'`. -/
def Returns (code : List (Item Nat Instr)) (cpu cpu' : Cpu M) : Prop :=
  ∃ n h, Exits (Instr.exec R) code n code (HState.start cpu) h ∧ h.cpu = cpu'

end

end PsxRecomp.Jit
