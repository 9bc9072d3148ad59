import PsxRecomp.Emit.GteMoves

/-!
# `Emit/Strict.lean` — `StrictTranslator::translate`

`recompiler/src/strict_translator.cpp`: one BIOS instruction to C. Every case is the source's
template written as a `CStmt`; the comments of the emitted C, the cycle hooks behind
`PSX_ENABLE_BLOCK_CYCLES` and the store-PC stamp for the debugger are not part of it.

Continuation-passing mode (the default) is modelled, so `SYSCALL` is the CPS template.
-/

set_option autoImplicit false

namespace PsxRecomp.Strict

open CLang

inductive TerminatorKind where
  | jr | jalr | j | jal | beq | bne | blez | bgtz | bltz | bgez | rfe
  deriving DecidableEq, Repr

/-- Why a word is not translated (`fail_reason`). -/
inductive Failure where
  | specialFunct (funct : BitVec 6)
  | regimmRt (rt : Reg)
  | cop0Rs (rs : Reg)
  | cop2Rs (rs : Reg)
  | opcode (op : BitVec 6)
  deriving DecidableEq, Repr

structure TranslateResult where
  cCode : CS
  preDelayCode : CS := .skip
  terminator : Option TerminatorKind := none
  terminatorTarget : Option Word := none

def plain (s : CS) : Except Failure TranslateResult := .ok { cCode := s }

/-- `emit_gpr_write`: a write to `$zero` becomes a comment. -/
def emitGprWrite (dest : Reg) (rhs : CE) : CS :=
  if dest = 0#5 then .skip else .store (.gpr dest) rhs

/-- `(uint32_t)((int32_t)cpu->gpr[rs] + (simm))` -/
def addrExpr (rs : Reg) (simm : Word) : CE := cu32 (.arith .add (ci32 (cgpr rs)) (cint simm))

/-- `cpu->pc = target; return;` -/
def setPcReturn (e : CE) : CS := .seq (.store .pc e) .ret

/-! ## 1. `SPECIAL` -/

/-- The overflow probe of `ADD` and `ADDI`; it runs even when the destination is `$zero`. -/
def addTrapping (dest : Reg) (a b : CE) : CS :=
  .block (.seqs [
    .decl .i32 "psx_a" a,
    .decl .i32 "psx_b" b,
    .decl .i64 "psx_r" (.arith .add (.cast .i64 (.var "psx_a")) (.cast .i64 (.var "psx_b"))),
    .ite (.lor (.cmp .lt (.var "psx_r") (.cast .i64 (cint 0x80000000)))
               (.cmp .gt (.var "psx_r") (.cast .i64 (cint 0x7FFFFFFF))))
      (.seq (.expr (.call0 .psxArithOverflow)) .ret) .skip,
    if dest = 0#5 then .skip else .store (.gpr dest) (cu32 (ci32 (.var "psx_r")))])

def div (rs rt : Reg) : CS :=
  .block (.seqs [
    .decl .i32 "psx_n" (ci32 (cgpr rs)),
    .decl .i32 "psx_d" (ci32 (cgpr rt)),
    .ite (.cmp .eq (.var "psx_d") (cint 0))
      (.seqs [
        .store .lo (.cond .u32 (.cmp .ge (.var "psx_n") (cint 0)) (cuint 0xFFFFFFFF) (cuint 1)),
        .store .hi (cu32 (.var "psx_n"))])
      (.ite (.land (.cmp .eq (.var "psx_n") (cint 0x80000000))
                   (.cmp .eq (.var "psx_d") (cint (-1))))
        (.seqs [.store .lo (cuint 0x80000000), .store .hi (cuint 0)])
        (.seqs [
          .decl .i32 "psx_q" (.arith .div (.var "psx_n") (.var "psx_d")),
          .decl .i32 "psx_r"
            (.arith .sub (.var "psx_n") (.arith .mul (.var "psx_q") (.var "psx_d"))),
          .store .lo (cu32 (.var "psx_q")),
          .store .hi (cu32 (.var "psx_r"))]))])

def divu (rs rt : Reg) : CS :=
  .block (.seqs [
    .decl .u32 "psx_n" (cgpr rs),
    .decl .u32 "psx_d" (cgpr rt),
    .ite (.cmp .eq (.var "psx_d") (cint 0))
      (.seqs [.store .lo (cuint 0xFFFFFFFF), .store .hi (.var "psx_n")])
      (.seqs [
        .decl .u32 "psx_q" (.arith .div (.var "psx_n") (.var "psx_d")),
        .decl .u32 "psx_r"
          (.arith .sub (.var "psx_n") (.arith .mul (.var "psx_q") (.var "psx_d"))),
        .store .lo (.var "psx_q"),
        .store .hi (.var "psx_r")])])

def multu (rs rt : Reg) : CS :=
  .block (.seqs [
    .decl .u64 "psx_p" (.arith .mul (.cast .u64 (cgpr rs)) (.cast .u64 (cgpr rt))),
    .store .lo (cu32 (.arith .band (.var "psx_p") (cuint 0xFFFFFFFF))),
    .store .hi (cu32 (.shr (.var "psx_p") (cint 32)))])

/-- `(uint32_t)(a < b ? 1 : 0)` -/
def setLess (a b : CE) : CE := cu32 (.cond .i32 (.cmp .lt a b) (cint 1) (cint 0))

def shiftReg (rs : Reg) : CE := .arith .band (cgpr rs) (cuint 0x1F)

def translateSpecial (addr raw : Word) : Except Failure TranslateResult :=
  let rs := rsField raw
  let rt := rtField raw
  let rd := rdField raw
  let shamt := cuint ((shamtField raw).setWidth 32)
  match functField raw with
  | 0x00 => plain (emitGprWrite rd (.shl (cgpr rt) shamt))
  | 0x02 => plain (emitGprWrite rd (.shr (cgpr rt) shamt))
  | 0x03 => plain (emitGprWrite rd (cu32 (.shr (ci32 (cgpr rt)) shamt)))
  | 0x04 => plain (emitGprWrite rd (.shl (cgpr rt) (shiftReg rs)))
  | 0x06 => plain (emitGprWrite rd (.shr (cgpr rt) (shiftReg rs)))
  | 0x07 => plain (emitGprWrite rd (cu32 (.shr (ci32 (cgpr rt)) (shiftReg rs))))
  | 0x08 => .ok { cCode := setPcReturn (cgpr rs), terminator := some .jr }
  | 0x09 =>
    .ok { cCode := .seq (if rd = 0#5 then .skip else .store (.gpr rd) (cuint (addr + 8)))
                        (setPcReturn (cgpr rs))
          terminator := some .jalr }
  | 0x0C =>
    plain (.seq (.store .pc (cuint addr)) (.ite (.call1 .psxSyscall (cgpr 2)) .ret .skip))
  | 0x0D => plain (.seq (.expr (.call2 .psxBreak (cuint (trapCode raw)) (cuint addr))) .ret)
  | 0x10 => plain (emitGprWrite rd (.obj .hi))
  | 0x11 => plain (.store .hi (cgpr rs))
  | 0x12 => plain (emitGprWrite rd (.obj .lo))
  | 0x13 => plain (.store .lo (cgpr rs))
  | 0x19 => plain (multu rs rt)
  | 0x1A => plain (div rs rt)
  | 0x1B => plain (divu rs rt)
  | 0x20 => plain (addTrapping rd (ci32 (cgpr rs)) (ci32 (cgpr rt)))
  | 0x21 => plain (emitGprWrite rd (.arith .add (cgpr rs) (cgpr rt)))
  | 0x22 => plain (emitGprWrite rd (.arith .sub (cgpr rs) (cgpr rt)))
  | 0x23 => plain (emitGprWrite rd (.arith .sub (cgpr rs) (cgpr rt)))
  | 0x24 => plain (emitGprWrite rd (.arith .band (cgpr rs) (cgpr rt)))
  | 0x25 => plain (emitGprWrite rd (.arith .bor (cgpr rs) (cgpr rt)))
  | 0x26 => plain (emitGprWrite rd (.arith .bxor (cgpr rs) (cgpr rt)))
  | 0x27 => plain (emitGprWrite rd (.bnot (.arith .bor (cgpr rs) (cgpr rt))))
  | 0x2A => plain (emitGprWrite rd (setLess (ci32 (cgpr rs)) (ci32 (cgpr rt))))
  | 0x2B => plain (emitGprWrite rd (setLess (cgpr rs) (cgpr rt)))
  | funct => .error (.specialFunct funct)

/-! ## 2. Branches

The operands are read into locals before the delay slot; the code after it only looks at those. -/

/-- The snapshot variables carry the address of the branch in the source; one branch is translated
at a time here. -/
def branch2 (kind : TerminatorKind) (op : CmpOp) (addr raw : Word) : TranslateResult where
  preDelayCode := .seq (.decl .u32 "psx_brA" (cgpr (rsField raw)))
                       (.decl .u32 "psx_brB" (cgpr (rtField raw)))
  cCode := .seq (.ite (.cmp op (.var "psx_brA") (.var "psx_brB"))
                  (setPcReturn (cuint (branchTarget addr raw))) .skip)
                (setPcReturn (cuint (addr + 8)))
  terminator := some kind
  terminatorTarget := some (branchTarget addr raw)

def branch1 (kind : TerminatorKind) (op : CmpOp) (addr raw : Word) : TranslateResult where
  preDelayCode := .decl .u32 "psx_brA" (cgpr (rsField raw))
  cCode := .seq (.ite (.cmp op (ci32 (.var "psx_brA")) (cint 0))
                  (setPcReturn (cuint (branchTarget addr raw))) .skip)
                (setPcReturn (cuint (addr + 8)))
  terminator := some kind
  terminatorTarget := some (branchTarget addr raw)

/-! ## 3. Loads and stores -/

/-- `if (psx_addr & mask) { psx_unaligned_access(cpu, psx_addr, pc); return; }` -/
def alignCheck (mask pc : Word) : CS :=
  .ite (.arith .band (.var "psx_addr") (cuint mask))
    (.seq (.expr (.call2 .psxUnalignedAccess (.var "psx_addr") (cuint pc))) .ret) .skip

/-- `LB` and `LBU`: no alignment to check; a load to `$zero` still reads. -/
def loadByte (conv : CE → CE) (raw : Word) : CS :=
  let rt := rtField raw
  let read : CE := .call1 .psxCycLoadByte (addrExpr (rsField raw) (simm16Field raw))
  if rt = 0#5 then .expr read else .store (.gpr rt) (conv read)

/-- `LH`, `LHU` and `LW`. -/
def loadAligned (mask : Word) (f : RtFn) (conv : CE → CE) (addr raw : Word) : CS :=
  let rt := rtField raw
  let read : CE := .call1 f (.var "psx_addr")
  .block (.seqs [
    .decl .u32 "psx_addr" (addrExpr (rsField raw) (simm16Field raw)),
    alignCheck mask addr,
    if rt = 0#5 then .expr read else .store (.gpr rt) (conv read)])

/-- `psx_addr & 3u`, `psx_addr & ~3u` -/
def addrLow : CE := .arith .band (.var "psx_addr") (cuint 3)
def addrAligned : CE := .arith .band (.var "psx_addr") (.bnot (cuint 3))

def lwl (raw : Word) : CS :=
  let rt := rtField raw
  .block (.seqs [
    .decl .u32 "psx_addr" (addrExpr (rsField raw) (simm16Field raw)),
    .decl .u32 "psx_aligned" addrAligned,
    if rt = 0#5 then .expr (.call1 .psxCycLoadWord (.var "psx_aligned"))
    else .seqs [
      .decl .u32 "psx_byte_offset" addrLow,
      .decl .u32 "psx_shift_left"
        (.arith .mul (.arith .sub (cuint 3) (.var "psx_byte_offset")) (cuint 8)),
      .decl .u32 "psx_keep_mask" (.arith .sub (.shl (cuint 1) (.var "psx_shift_left")) (cuint 1)),
      .decl .u32 "psx_word" (.call1 .psxCycLoadWord (.var "psx_aligned")),
      .decl .u32 "psx_old_rt" (cgpr rt),
      .store (.gpr rt) (.arith .bor (.arith .band (.var "psx_old_rt") (.var "psx_keep_mask"))
        (.shl (.var "psx_word") (.var "psx_shift_left")))]])

def lwr (raw : Word) : CS :=
  let rt := rtField raw
  .block (.seqs [
    .decl .u32 "psx_addr" (addrExpr (rsField raw) (simm16Field raw)),
    .decl .u32 "psx_aligned" addrAligned,
    if rt = 0#5 then .expr (.call1 .psxCycLoadWord (.var "psx_aligned"))
    else .seqs [
      .decl .u32 "psx_byte_offset" addrLow,
      .decl .u32 "psx_shift_right" (.arith .mul (.var "psx_byte_offset") (cuint 8)),
      .decl .u32 "psx_keep_mask" (.bnot (.shr (cuint 0xFFFFFFFF) (.var "psx_shift_right"))),
      .decl .u32 "psx_word" (.call1 .psxCycLoadWord (.var "psx_aligned")),
      .decl .u32 "psx_old_rt" (cgpr rt),
      .store (.gpr rt) (.arith .bor (.arith .band (.var "psx_old_rt") (.var "psx_keep_mask"))
        (.shr (.var "psx_word") (.var "psx_shift_right")))]])

def sb (raw : Word) : CS :=
  .expr (.call2 .writeByte (addrExpr (rsField raw) (simm16Field raw))
    (.cast .u8 (.arith .band (cgpr (rtField raw)) (cuint 0xFF))))

/-- `SH` and `SW`. -/
def storeAligned (mask : Word) (f : RtFn) (value : CE) (addr raw : Word) : CS :=
  .block (.seqs [
    .decl .u32 "psx_addr" (addrExpr (rsField raw) (simm16Field raw)),
    alignCheck mask addr,
    .expr (.call2 f (.var "psx_addr") value)])

/-- `SWL` and `SWR`: the shift, the mask of the bytes kept, and the merge differ. -/
def storeMerge (shiftBits keepMask : CE) (shifted : CE → CE) (raw : Word) : CS :=
  .block (.seqs [
    .decl .u32 "psx_addr" (addrExpr (rsField raw) (simm16Field raw)),
    .decl .u32 "psx_aligned" addrAligned,
    .decl .u32 "psx_shift_bytes" addrLow,
    .decl .u32 "psx_shift_bits" shiftBits,
    .decl .u32 "psx_keep_mask" keepMask,
    .decl .u32 "psx_mem" (.call1 .readWord (.var "psx_aligned")),
    .decl .u32 "psx_new" (.arith .bor (.arith .band (.var "psx_mem") (.var "psx_keep_mask"))
      (shifted (cgpr (rtField raw)))),
    .expr (.call2 .writeWord (.var "psx_aligned") (.var "psx_new"))])

/-- `(3u - psx_shift_bytes) * 8u` -/
def shiftFromTop : CE :=
  .arith .mul (.arith .sub (cuint 3) (.var "psx_shift_bytes")) (cuint 8)

/-- `psx_shift_bytes * 8u` -/
def shiftFromBottom : CE := .arith .mul (.var "psx_shift_bytes") (cuint 8)

def swl : Word → CS :=
  storeMerge shiftFromTop (.shr (cuint 0x00FFFFFF) shiftFromBottom)
    (fun e => .shr e (.var "psx_shift_bits"))

def swr : Word → CS :=
  storeMerge shiftFromBottom (.shl (cuint 0xFFFFFF00) shiftFromTop)
    (fun e => .shl e (.var "psx_shift_bits"))

/-! ## 4. Coprocessors -/

/-- `RFE`, which the BIOS emitters end a slice with. -/
def rfe : TranslateResult where
  cCode := .seq
    (.block (.seqs [
      .decl .u32 "sr" (.obj (.cop0 12)),
      .store (.cop0 12) (.arith .bor (.arith .band (.var "sr") (cuint 0xFFFFFFC0))
        (.arith .band (.shr (.var "sr") (cint 2)) (cuint 0x0F)))]))
    .ret
  terminator := some .rfe

def translateCop0 (raw : Word) : Except Failure TranslateResult :=
  let rs := rsField raw
  let rt := rtField raw
  let rd := rdField raw
  if raw = 0x42000010#32 then .ok rfe
  else if rs = 0x00#5 then plain (emitGprWrite rt (.obj (.cop0 rd)))
  else if rs = 0x04#5 then plain (.store (.cop0 rd) (cgpr rt))
  else .error (.cop0Rs rs)

def translateCop2 (raw : Word) : Except Failure TranslateResult :=
  let copOp := rsField raw
  let rt := rtField raw
  let rd := rdField raw
  if copOp = 0x00#5 then plain (emitGprWrite rt (gteDataExpr rd))
  else if copOp = 0x02#5 then plain (emitGprWrite rt (gteCtrlExpr rd))
  else if copOp = 0x04#5 then plain (gteDataWrite rd (cgpr rt))
  else if copOp = 0x06#5 then plain (gteCtrlWrite rd (cgpr rt))
  else if copOp &&& 0x10#5 ≠ 0#5 then plain (.expr (.call1 .gteExecute (cint (gteCmd raw))))
  else .error (.cop2Rs copOp)

/-- The address of `LWC2` and `SWC2`: a zero offset is not added. -/
def cop2Addr (rs : Reg) (offset : Word) : CE :=
  if offset = 0#32 then cgpr rs else addrExpr rs offset

def lwc2 (raw : Word) : CS :=
  gteDataWrite (rtField raw)
    (.call1 .psxCycLwc2Read (cop2Addr (rsField raw) (simm16Field raw)))

def swc2 (raw : Word) : CS :=
  .expr (.call2 .writeWord (cop2Addr (rsField raw) (simm16Field raw)) (gteDataExpr (rtField raw)))

/-! ## 5. `translate` -/

def translate (addr raw : Word) : Except Failure TranslateResult :=
  let rs := rsField raw
  let rt := rtField raw
  let simm := simm16Field raw
  let uimm := cuint (uimm16Field raw)
  if raw = 0#32 then plain .skip
  else match opField raw with
  | 0x00 => translateSpecial addr raw
  | 0x04 => .ok (branch2 .beq .eq addr raw)
  | 0x05 => .ok (branch2 .bne .ne addr raw)
  | 0x06 => .ok (branch1 .blez .le addr raw)
  | 0x07 => .ok (branch1 .bgtz .gt addr raw)
  | 0x01 =>
    if rt = 0x00#5 then .ok (branch1 .bltz .lt addr raw)
    else if rt = 0x01#5 then .ok (branch1 .bgez .ge addr raw)
    else .error (.regimmRt rt)
  | 0x02 =>
    .ok { cCode := setPcReturn (cuint (jumpTarget addr raw))
          terminator := some .j, terminatorTarget := some (jumpTarget addr raw) }
  | 0x03 =>
    .ok { cCode := .seq (.store (.gpr 31) (cuint (addr + 8)))
                        (setPcReturn (cuint (jumpTarget addr raw)))
          terminator := some .jal, terminatorTarget := some (jumpTarget addr raw) }
  | 0x08 => plain (addTrapping rt (ci32 (cgpr rs)) (cint simm))
  | 0x09 => plain (emitGprWrite rt (addrExpr rs simm))
  | 0x0A => plain (emitGprWrite rt (setLess (ci32 (cgpr rs)) (cint simm)))
  | 0x0B => plain (emitGprWrite rt (setLess (cgpr rs) (cuint simm)))
  | 0x0C => plain (emitGprWrite rt (.arith .band (cgpr rs) uimm))
  | 0x0D => plain (emitGprWrite rt (.arith .bor (cgpr rs) uimm))
  | 0x0E => plain (emitGprWrite rt (.arith .bxor (cgpr rs) uimm))
  | 0x0F => plain (emitGprWrite rt (cuint (uimm16Field raw <<< 16)))
  | 0x20 => plain (loadByte (fun e => cu32 (ci32 (.cast .i8 e))) raw)
  | 0x22 => plain (lwl raw)
  | 0x26 => plain (lwr raw)
  | 0x21 => plain (loadAligned 1 .psxCycLoadHalf (fun e => cu32 (ci32 (.cast .i16 e))) addr raw)
  | 0x23 => plain (loadAligned 3 .psxCycLoadWord id addr raw)
  | 0x24 => plain (loadByte cu32 raw)
  | 0x25 => plain (loadAligned 1 .psxCycLoadHalf cu32 addr raw)
  | 0x28 => plain (sb raw)
  | 0x29 =>
    plain (storeAligned 1 .writeHalf (.cast .u16 (.arith .band (cgpr rt) (cuint 0xFFFF))) addr raw)
  | 0x2A => plain (swl raw)
  | 0x2B => plain (storeAligned 3 .writeWord (cgpr rt) addr raw)
  | 0x2E => plain (swr raw)
  | 0x10 => translateCop0 raw
  | 0x12 => translateCop2 raw
  | 0x32 => plain (lwc2 raw)
  | 0x3A => plain (swc2 raw)
  | op => .error (.opcode op)

end PsxRecomp.Strict
