import PsxRecomp.Emit.GteMoves

/-!
# `Emit/CodeGen.lean` — `CodeGenerator::translate_instruction`

`recompiler/src/code_generator.cpp`: one game instruction to one C statement. Each `translate_*`
has its own shortcuts for `$zero` operands and for immediates, tested in its own order, so each
keeps its own definition; only the shapes that are literally the same text are shared.
-/

set_option autoImplicit false

namespace PsxRecomp.CodeGen

open CLang

/-- The part of `CodeGenConfig` that decides which statement is written. -/
structure Config where
  optimizeZeroReg : Bool := true
  deriving Repr

section
variable (cfg : Config) (instr : Word)

/-- `reg_name(r) = e;`, or nothing for `$zero`. -/
def assign (r : Reg) (e : CE) : CS :=
  if cfg.optimizeZeroReg ∧ r = 0#5 then .skip else .store (.gpr r) e

/-! ## 1. Arithmetic -/

/-- The constant shortcut comes before the `$zero` check. -/
def translateAddiu : CS :=
  let rs := rsField instr
  let rt := rtField instr
  if rs = 0#5 then .store (.gpr rt) (cint (simm16Field instr))
  else assign cfg rt (.arith .add (cgpr rs) (cint (simm16Field instr)))

/-- `0xIMM << 16`, a shift of an `int`. -/
def translateLui : CS :=
  assign cfg (rtField instr) (.shl (cint (uimm16Field instr)) (cint 16))

/-- A three-register operation with the two move shortcuts: `OR` and `ADDU`. -/
def moveOr (op : ArithOp) : CS :=
  let rs := rsField instr
  let rt := rtField instr
  assign cfg (rdField instr)
    (if rt = 0#5 then cgpr rs else if rs = 0#5 then cgpr rt else .arith op (cgpr rs) (cgpr rt))

def translateOr : CS := moveOr cfg instr .bor
def translateAddu : CS := moveOr cfg instr .add
def translateAdd : CS := translateAddu cfg instr

def translateNor : CS :=
  let rs := rsField instr
  let rt := rtField instr
  assign cfg (rdField instr)
    (if rt = 0#5 then .bnot (cgpr rs) else if rs = 0#5 then .bnot (cgpr rt)
      else .bnot (.arith .bor (cgpr rs) (cgpr rt)))

def threeReg (op : ArithOp) : CS :=
  assign cfg (rdField instr) (.arith op (cgpr (rsField instr)) (cgpr (rtField instr)))

def translateAnd : CS := threeReg cfg instr .band
def translateXor : CS := threeReg cfg instr .bxor
def translateSubu : CS := threeReg cfg instr .sub
def translateSub : CS := translateSubu cfg instr

def translateAndi : CS :=
  assign cfg (rtField instr) (.arith .band (cgpr (rsField instr)) (cint (uimm16Field instr)))

def translateOri : CS :=
  let rs := rsField instr
  assign cfg (rtField instr)
    (if rs = 0#5 then cint (uimm16Field instr)
      else .arith .bor (cgpr rs) (cint (uimm16Field instr)))

def translateXori : CS :=
  assign cfg (rtField instr) (.arith .bxor (cgpr (rsField instr)) (cint (uimm16Field instr)))

/-- `(a < b) ? 1 : 0` -/
def less (a b : CE) : CE := .cond .i32 (.cmp .lt a b) (cint 1) (cint 0)

def translateSlt : CS :=
  assign cfg (rdField instr) (less (ci32 (cgpr (rsField instr))) (ci32 (cgpr (rtField instr))))

def translateSltu : CS :=
  assign cfg (rdField instr) (less (cgpr (rsField instr)) (cgpr (rtField instr)))

def translateSlti : CS :=
  assign cfg (rtField instr) (less (ci32 (cgpr (rsField instr))) (cint (simm16Field instr)))

def translateSltiu : CS :=
  assign cfg (rtField instr) (less (cgpr (rsField instr)) (cu32 (cint (simm16Field instr))))

/-! ## 2. Shifts -/

def shamtLit : CE := cint ((shamtField instr).setWidth 32)

/-- `gpr[rs] & 0x1F` -/
def shiftReg : CE := .arith .band (cgpr (rsField instr)) (cint 0x1F)

def translateSll : CS :=
  let rt := rtField instr
  let rd := rdField instr
  if rd = 0#5 ∧ rt = 0#5 ∧ shamtField instr = 0#5 then .skip
  else assign cfg rd (if shamtField instr = 0#5 then cgpr rt else .shl (cgpr rt) (shamtLit instr))

def translateSrl : CS :=
  assign cfg (rdField instr) (.shr (cu32 (cgpr (rtField instr))) (shamtLit instr))

def translateSra : CS :=
  assign cfg (rdField instr) (.shr (ci32 (cgpr (rtField instr))) (shamtLit instr))

def translateSllv : CS :=
  assign cfg (rdField instr) (.shl (cgpr (rtField instr)) (shiftReg instr))

def translateSrlv : CS :=
  assign cfg (rdField instr) (.shr (cu32 (cgpr (rtField instr))) (shiftReg instr))

def translateSrav : CS :=
  assign cfg (rdField instr) (.shr (ci32 (cgpr (rtField instr))) (shiftReg instr))

/-! ## 3. `HI` and `LO` -/

def translateMult : CS :=
  .block (.seqs [
    .decl .i64 "result" (.arith .mul (.cast .i64 (ci32 (cgpr (rsField instr))))
      (.cast .i64 (ci32 (cgpr (rtField instr))))),
    .store .lo (cu32 (.var "result")),
    .store .hi (cu32 (.shr (.var "result") (cint 32)))])

def translateMultu : CS :=
  .block (.seqs [
    .decl .u64 "result" (.arith .mul (.cast .u64 (cgpr (rsField instr)))
      (.cast .u64 (cgpr (rtField instr)))),
    .store .lo (cu32 (.var "result")),
    .store .hi (cu32 (.shr (.var "result") (cint 32)))])

/-- There is a guard for a zero divisor and none for `INT32_MIN / -1`. -/
def translateDiv : CS :=
  let rs := cgpr (rsField instr)
  let rt := cgpr (rtField instr)
  .ite (.cmp .ne rt (cint 0))
    (.seqs [
      .store .lo (cu32 (.arith .div (ci32 rs) (ci32 rt))),
      .store .hi (cu32 (.arith .mod (ci32 rs) (ci32 rt)))])
    (.seqs [
      .store .lo (.cond .u32 (.cmp .ge (ci32 rs) (cint 0)) (cuint 0xFFFFFFFF) (cint 1)),
      .store .hi (cu32 rs)])

def translateDivu : CS :=
  let rs := cgpr (rsField instr)
  let rt := cgpr (rtField instr)
  .ite (.cmp .ne rt (cint 0))
    (.seqs [.store .lo (.arith .div rs rt), .store .hi (.arith .mod rs rt)])
    (.seqs [.store .lo (cuint 0xFFFFFFFF), .store .hi rs])

def translateMfhi : CS := assign cfg (rdField instr) (.obj .hi)
def translateMflo : CS := assign cfg (rdField instr) (.obj .lo)
def translateMthi : CS := .store .hi (cgpr (rsField instr))
def translateMtlo : CS := .store .lo (cgpr (rsField instr))

/-! ## 4. Memory -/

/-- The address operand: an `unsigned` sum, and no sum at all for a zero offset. -/
def addrExpr : CE :=
  if simm16Field instr = 0#32 then cgpr (rsField instr)
  else .arith .add (cgpr (rsField instr)) (cint (simm16Field instr))

/-- `LB`, `LBU`, `LH`, `LHU` and `LW`: a load to `$zero` still reads. -/
def load (f : RtFn) (conv : CE → CE) : CS :=
  let rt := rtField instr
  let read : CE := .call1 f (addrExpr instr)
  if cfg.optimizeZeroReg ∧ rt = 0#5 then .expr read else .store (.gpr rt) (conv read)

def translateLb : CS := load cfg instr .psxCycLoadByte (fun e => ci32 (.cast .i8 e))
def translateLbu : CS := load cfg instr .psxCycLoadByte id
def translateLh : CS := load cfg instr .psxCycLoadHalf (fun e => ci32 (.cast .i16 e))
def translateLhu : CS := load cfg instr .psxCycLoadHalf id
def translateLw : CS := load cfg instr .psxCycLoadWord id

/-- `LWL` and `LWR`: a load to `$zero` is dropped. The later check for it is never reached. -/
def loadMerge (f : RtFn) : CS :=
  let rt := rtField instr
  if cfg.optimizeZeroReg ∧ rt = 0#5 then .skip
  else .store (.gpr rt) (.call2 f (addrExpr instr) (cgpr rt))

def translateLwl : CS := loadMerge cfg instr .psxLwl
def translateLwr : CS := loadMerge cfg instr .psxLwr

/-- A store of `rt`. -/
def storeTo (f : RtFn) (conv : CE → CE) : CS :=
  .expr (.call2 f (addrExpr instr) (conv (cgpr (rtField instr))))

def translateSb : CS := storeTo instr .writeByte (.cast .u8)
def translateSh : CS := storeTo instr .writeHalf (.cast .u16)
def translateSw : CS := storeTo instr .writeWord id
def translateSwl : CS := storeTo instr .psxSwl id
def translateSwr : CS := storeTo instr .psxSwr id

/-! ## 5. Coprocessors: no `$zero` check on the moves to a register -/

def translateCop0 : CS :=
  let copOp := rsField instr
  let rt := rtField instr
  let rd := rdField instr
  if copOp = 0x00#5 then .store (.gpr rt) (.obj (.cop0 rd))
  else if copOp = 0x04#5 then .store (.cop0 rd) (cgpr rt)
  else if copOp = 0x10#5 ∧ functField instr = 0x10#6 then
    .seq
      (.block (.seqs [
        .decl .u32 "sr" (.obj (.cop0 12)),
        .store (.cop0 12) (.arith .bor (.arith .band (.var "sr") (cuint 0xFFFFFFF0))
          (.arith .band (.shr (.var "sr") (cint 2)) (cuint 0x0F)))]))
      (.expr (.call0 .psxRfeMarkEscape))
  else .skip

def translateCop2 : CS :=
  let copOp := rsField instr
  let rt := rtField instr
  let rd := rdField instr
  if copOp = 0x00#5 then .store (.gpr rt) (gteDataExpr rd)
  else if copOp = 0x02#5 then .store (.gpr rt) (gteCtrlExpr rd)
  else if copOp = 0x04#5 then gteDataWrite rd (cgpr rt)
  else if copOp = 0x06#5 then gteCtrlWrite rd (cgpr rt)
  else if copOp &&& 0x10#5 ≠ 0#5 then .expr (.call1 .gteExecute (cint (gteCmd instr)))
  else .skip

def translateLwc2 : CS := gteDataWrite (rtField instr) (.call1 .psxCycLwc2Read (addrExpr instr))

def translateSwc2 : CS :=
  .expr (.call2 .writeWord (addrExpr instr) (gteDataExpr (rtField instr)))

/-! ## 6. `translate_instruction` -/

/-- `SPECIAL`. The rows of `JR` and `JALR` are only reached for a word that no block ends with. -/
def translateSpecial (addr : Word) : CS :=
  match functField instr with
  | 0x00 => translateSll cfg instr
  | 0x02 => translateSrl cfg instr
  | 0x03 => translateSra cfg instr
  | 0x04 => translateSllv cfg instr
  | 0x06 => translateSrlv cfg instr
  | 0x07 => translateSrav cfg instr
  | 0x08 => .ret
  | 0x09 =>
    .seq (.store (.gpr (rdField instr)) (cuint (addr + 8))) (.store .pc (cgpr (rsField instr)))
  | 0x0C => .expr (.call1 .psxSyscall (cint (trapCode instr)))
  | 0x0D => .skip
  | 0x10 => translateMfhi cfg instr
  | 0x11 => translateMthi instr
  | 0x12 => translateMflo cfg instr
  | 0x13 => translateMtlo instr
  | 0x18 => translateMult instr
  | 0x19 => translateMultu instr
  | 0x1A => translateDiv instr
  | 0x1B => translateDivu instr
  | 0x20 => translateAdd cfg instr
  | 0x21 => translateAddu cfg instr
  | 0x22 => translateSub cfg instr
  | 0x23 => translateSubu cfg instr
  | 0x24 => translateAnd cfg instr
  | 0x25 => translateOr cfg instr
  | 0x26 => translateXor cfg instr
  | 0x27 => translateNor cfg instr
  | 0x2A => translateSlt cfg instr
  | 0x2B => translateSltu cfg instr
  | _ => .skip

def translateInstruction (addr : Word) : CS :=
  match opField instr with
  | 0x00 => translateSpecial cfg instr addr
  | 0x08 => translateAddiu cfg instr
  | 0x09 => translateAddiu cfg instr
  | 0x0A => translateSlti cfg instr
  | 0x0B => translateSltiu cfg instr
  | 0x0C => translateAndi cfg instr
  | 0x0D => translateOri cfg instr
  | 0x0E => translateXori cfg instr
  | 0x0F => translateLui cfg instr
  | 0x10 => translateCop0 instr
  | 0x12 => translateCop2 instr
  | 0x20 => translateLb cfg instr
  | 0x21 => translateLh cfg instr
  | 0x22 => translateLwl cfg instr
  | 0x23 => translateLw cfg instr
  | 0x24 => translateLbu cfg instr
  | 0x25 => translateLhu cfg instr
  | 0x26 => translateLwr cfg instr
  | 0x28 => translateSb instr
  | 0x29 => translateSh instr
  | 0x2A => translateSwl instr
  | 0x2B => translateSw instr
  | 0x2E => translateSwr instr
  | 0x32 => translateLwc2 instr
  | 0x3A => translateSwc2 instr
  | _ => .skip

end

end PsxRecomp.CodeGen
