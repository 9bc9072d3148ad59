import PsxRecomp.Machine.Gte
import PsxRecomp.Lib.Words

/-!
# `Interp/ExecOne.lean` — the dirty-RAM interpreter, one instruction

`runtime/src/dirty_ram_interp.c`: `exec_one`, `exec_delay_slot` and the unaligned-access helpers.
This is the semantics every other backend is compared with, so it is kept in the source's shape:
the primary opcode, then the function field; a register write is always followed by
`cpu->gpr[0] = 0` (`Cpu.writeBack`).

`execPlain` is the part of the switch that neither transfers control nor traps; `exec_one` and
`exec_delay_slot` both run it. A word the switch has no case for makes `abort_unsupported` record
the reason and leaves the state alone.
-/

set_option autoImplicit false

namespace PsxRecomp

variable {M : Type}

/-! ## 1. Unaligned accesses -/

def lwlMerge (addr word rtValue : Word) : Word :=
  match (addr &&& 3).toNat with
  | 0 => (rtValue &&& 0x00FFFFFF) ||| (word <<< 24)
  | 1 => (rtValue &&& 0x0000FFFF) ||| (word <<< 16)
  | 2 => (rtValue &&& 0x000000FF) ||| (word <<< 8)
  | _ => word

def lwrMerge (addr word rtValue : Word) : Word :=
  match (addr &&& 3).toNat with
  | 0 => word
  | 1 => (rtValue &&& 0xFF000000) ||| (word >>> 8)
  | 2 => (rtValue &&& 0xFFFF0000) ||| (word >>> 16)
  | _ => (rtValue &&& 0xFFFFFF00) ||| (word >>> 24)

/-- The word `interp_swl` writes back. -/
def swlMerge (addr word value : Word) : Word :=
  match (addr &&& 3).toNat with
  | 0 => (word &&& 0xFFFFFF00) ||| (value >>> 24)
  | 1 => (word &&& 0xFFFF0000) ||| (value >>> 16)
  | 2 => (word &&& 0xFF000000) ||| (value >>> 8)
  | _ => value

/-- The word `interp_swr` writes back. -/
def swrMerge (addr word value : Word) : Word :=
  match (addr &&& 3).toNat with
  | 0 => value
  | 1 => (word &&& 0x000000FF) ||| (value <<< 8)
  | 2 => (word &&& 0x0000FFFF) ||| (value <<< 16)
  | _ => (word &&& 0x00FFFFFF) ||| (value <<< 24)

/-! The tables as shifts and masks, the way the templates of the emitters compute them. -/

section
variable (a word v : Word)

theorem lwlMerge_eq : lwlMerge a word v =
    v &&& 1#32 <<< ((3#32 - (a &&& 3#32)) * 8#32).toNat - 1#32 |||
      word <<< ((3#32 - (a &&& 3#32)) * 8#32).toNat := by
  rcases Words.and_three_cases a with h | h | h | h <;> simp [lwlMerge, h]

theorem lwrMerge_eq : lwrMerge a word v =
    v &&& ~~~(0xFFFFFFFF#32 >>> ((a &&& 3#32) * 8#32).toNat) |||
      word >>> ((a &&& 3#32) * 8#32).toNat := by
  rcases Words.and_three_cases a with h | h | h | h <;> simp [lwrMerge, h]

theorem swlMerge_eq : swlMerge a word v =
    word &&& 0xFFFFFF00#32 <<< ((a &&& 3#32) * 8#32).toNat |||
      v >>> ((3#32 - (a &&& 3#32)) * 8#32).toNat := by
  rcases Words.and_three_cases a with h | h | h | h <;> simp [swlMerge, h]

theorem swrMerge_eq : swrMerge a word v =
    word &&& 0x00FFFFFF#32 >>> ((3#32 - (a &&& 3#32)) * 8#32).toNat |||
      v <<< ((a &&& 3#32) * 8#32).toNat := by
  rcases Words.and_three_cases a with h | h | h | h <;> simp [swrMerge, h]

end

section
variable (R : Runtime M)

/-- Read a word through the accessor, keeping what the read did to memory. -/
def Cpu.readWord (c : Cpu M) (addr : Word) : Word × Cpu M :=
  ((R.readWord addr c.mem).1, { c with mem := (R.readWord addr c.mem).2 })

def Cpu.readHalf (c : Cpu M) (addr : Word) : BitVec 16 × Cpu M :=
  ((R.readHalf addr c.mem).1, { c with mem := (R.readHalf addr c.mem).2 })

def Cpu.readByte (c : Cpu M) (addr : Word) : BitVec 8 × Cpu M :=
  ((R.readByte addr c.mem).1, { c with mem := (R.readByte addr c.mem).2 })

def Cpu.writeWord (c : Cpu M) (addr value : Word) : Cpu M :=
  { c with mem := R.writeWord addr value c.mem }

def Cpu.writeHalf (c : Cpu M) (addr : Word) (value : BitVec 16) : Cpu M :=
  { c with mem := R.writeHalf addr value c.mem }

def Cpu.writeByte (c : Cpu M) (addr : Word) (value : BitVec 8) : Cpu M :=
  { c with mem := R.writeByte addr value c.mem }

/-- `interp_swl` and `interp_swr`: read the aligned word, merge, write it back. -/
def interpStoreMerge (merge : Word → Word → Word → Word) (c : Cpu M) (addr value : Word) : Cpu M :=
  let aligned := addr &&& ~~~3
  let (word, c) := c.readWord R aligned
  c.writeWord R aligned (merge addr word value)

def interpSwl : Cpu M → Word → Word → Cpu M := interpStoreMerge R swlMerge
def interpSwr : Cpu M → Word → Word → Cpu M := interpStoreMerge R swrMerge

end

/-! ## 2. The instructions that fall through -/

/-- A C condition as the register value `? 1u : 0u` gives. -/
def flag (b : Bool) : Word := if b then 1 else 0

/-- `HI` and `LO` after `DIV`. -/
def divHiLo (a b : Word) : Word × Word :=
  if b = 0#32 then (a, if a.slt 0#32 then 1 else 0xFFFFFFFF)
  else if a = 0x80000000#32 ∧ b = -1 then (0, 0x80000000)
  else (a.srem b, a.sdiv b)

/-- `HI` and `LO` after `DIVU`. -/
def divuHiLo (a b : Word) : Word × Word :=
  if b = 0#32 then (a, 0xFFFFFFFF) else (a % b, a / b)

/-- `SPECIAL`, without `JR`, `JALR`, `SYSCALL` and `BREAK`. -/
def execSpecial (insn : Word) (c : Cpu M) : Except String (Cpu M) :=
  let rs := c.gpr (rsField insn)
  let rt := c.gpr (rtField insn)
  let rd := rdField insn
  match functField insn with
  | 0x00 => .ok (c.writeBack rd (rt <<< (shamtField insn).toNat))
  | 0x02 => .ok (c.writeBack rd (rt >>> (shamtField insn).toNat))
  | 0x03 => .ok (c.writeBack rd (rt.sshiftRight (shamtField insn).toNat))
  | 0x04 => .ok (c.writeBack rd (rt <<< (rs &&& 31).toNat))
  | 0x06 => .ok (c.writeBack rd (rt >>> (rs &&& 31).toNat))
  | 0x07 => .ok (c.writeBack rd (rt.sshiftRight (rs &&& 31).toNat))
  | 0x0F => .ok c
  | 0x10 => .ok (c.writeBack rd c.hi)
  | 0x11 => .ok { c with hi := rs }
  | 0x12 => .ok (c.writeBack rd c.lo)
  | 0x13 => .ok { c with lo := rs }
  | 0x18 =>
    let r := rs.signExtend 64 * rt.signExtend 64
    .ok { c with lo := r.setWidth 32, hi := (r >>> 32).setWidth 32 }
  | 0x19 =>
    let r := rs.setWidth 64 * rt.setWidth 64
    .ok { c with lo := r.setWidth 32, hi := (r >>> 32).setWidth 32 }
  | 0x1A => .ok { c with hi := (divHiLo rs rt).1, lo := (divHiLo rs rt).2 }
  | 0x1B => .ok { c with hi := (divuHiLo rs rt).1, lo := (divuHiLo rs rt).2 }
  | 0x20 => .ok (c.writeBack rd (rs + rt))
  | 0x21 => .ok (c.writeBack rd (rs + rt))
  | 0x22 => .ok (c.writeBack rd (rs - rt))
  | 0x23 => .ok (c.writeBack rd (rs - rt))
  | 0x24 => .ok (c.writeBack rd (rs &&& rt))
  | 0x25 => .ok (c.writeBack rd (rs ||| rt))
  | 0x26 => .ok (c.writeBack rd (rs ^^^ rt))
  | 0x27 => .ok (c.writeBack rd (~~~(rs ||| rt)))
  | 0x2A => .ok (c.writeBack rd (flag (rs.slt rt)))
  | 0x2B => .ok (c.writeBack rd (flag (rs.ult rt)))
  | _ => .error "SPECIAL funct"

/-- `COP0`: `MFC0`, `MTC0` and `RFE`. -/
def execCop0 (insn : Word) (c : Cpu M) : Except String (Cpu M) :=
  let copOp := rsField insn
  if copOp = 0x00#5 then .ok (c.writeBack (rtField insn) (c.cop0 (rdField insn)))
  else if copOp = 0x04#5 then .ok (c.setCop0 (rdField insn) (c.gpr (rtField insn)))
  else if copOp = 0x10#5 ∧ functField insn = 0x10#6 then
    let sr := c.cop0 12
    .ok (c.setCop0 12 ((sr &&& 0xFFFFFFF0) ||| ((sr >>> 2) &&& 0x0F)))
  else .error "COP0 op"

section
variable (R : Runtime M)

/-- `COP2`: register transfers and GTE commands. -/
def execCop2 (insn : Word) (c : Cpu M) : Except String (Cpu M) :=
  let copOp := rsField insn
  let rt := rtField insn
  let rd := rdField insn
  if copOp = 0x00#5 then .ok (c.writeBack rt (gteReadData c.gte rd))
  else if copOp = 0x02#5 then .ok (c.writeBack rt (gteReadCtrl c.gte rd))
  else if copOp = 0x04#5 then .ok { c with gte := gteWriteData c.gte rd (c.gpr rt) }
  else if copOp = 0x06#5 then .ok { c with gte := gteWriteCtrl c.gte rd (c.gpr rt) }
  else if copOp &&& 0x10#5 ≠ 0#5 then .ok { c with gte := R.gteExecute (gteCmd insn) c.gte }
  else .error "COP2 op"

def effAddr (insn : Word) (c : Cpu M) : Word := c.gpr (rsField insn) + simm16Field insn

/-- Every case of the switch that neither transfers control nor traps. -/
def execPlain (insn : Word) (c : Cpu M) : Except String (Cpu M) :=
  let rs := c.gpr (rsField insn)
  let rt := rtField insn
  let addr := effAddr insn c
  match opField insn with
  | 0x00 => execSpecial insn c
  | 0x08 => .ok (c.writeBack rt (rs + simm16Field insn))
  | 0x09 => .ok (c.writeBack rt (rs + simm16Field insn))
  | 0x0A => .ok (c.writeBack rt (flag (rs.slt (simm16Field insn))))
  | 0x0B => .ok (c.writeBack rt (flag (rs.ult (simm16Field insn))))
  | 0x0C => .ok (c.writeBack rt (rs &&& uimm16Field insn))
  | 0x0D => .ok (c.writeBack rt (rs ||| uimm16Field insn))
  | 0x0E => .ok (c.writeBack rt (rs ^^^ uimm16Field insn))
  | 0x0F => .ok (c.writeBack rt (uimm16Field insn <<< 16))
  | 0x10 => execCop0 insn c
  | 0x12 => execCop2 R insn c
  | 0x20 => let (v, c) := c.readByte R addr; .ok (c.writeBack rt (v.signExtend 32))
  | 0x21 => let (v, c) := c.readHalf R addr; .ok (c.writeBack rt (v.signExtend 32))
  | 0x22 =>
    let (word, c) := c.readWord R (addr &&& ~~~3)
    .ok (c.writeBack rt (lwlMerge addr word (c.gpr rt)))
  | 0x23 => let (v, c) := c.readWord R addr; .ok (c.writeBack rt v)
  | 0x24 => let (v, c) := c.readByte R addr; .ok (c.writeBack rt (v.setWidth 32))
  | 0x25 => let (v, c) := c.readHalf R addr; .ok (c.writeBack rt (v.setWidth 32))
  | 0x26 =>
    let (word, c) := c.readWord R (addr &&& ~~~3)
    .ok (c.writeBack rt (lwrMerge addr word (c.gpr rt)))
  | 0x28 => .ok (c.writeByte R addr ((c.gpr rt).setWidth 8))
  | 0x29 => .ok (c.writeHalf R addr ((c.gpr rt).setWidth 16))
  | 0x2A => .ok (interpSwl R c addr (c.gpr rt))
  | 0x2B => .ok (c.writeWord R addr (c.gpr rt))
  | 0x2E => .ok (interpSwr R c addr (c.gpr rt))
  | 0x32 =>
    let (v, c) := c.readWord R addr
    .ok { c with gte := gteWriteData c.gte rt v }
  | 0x3A => .ok (c.writeWord R addr (gteReadData c.gte rt))
  | _ => .error "primary opcode"

/-! ## 3. `exec_one` -/

/-- What `abort_unsupported` records. -/
structure Unsupported where
  pc : Word
  insn : Word
  reason : String
  deriving DecidableEq, Repr

/-- How `exec_one` returns. -/
inductive Exec (M : Type) where
  /-- `return 0`: the caller goes on at `pc + 4` -/
  | next (c : Cpu M)
  /-- `return 1`: `cpu->pc` says where to go on -/
  | transfer (c : Cpu M)
  /-- `return 1` with `g_unsupported_seen` set -/
  | abort (u : Unsupported) (c : Cpu M)

def Exec.state? : Exec M → Option (Cpu M)
  | .next c | .transfer c => some c
  | .abort _ _ => none

/-- The words `exec_delay_slot` refuses, before it looks at anything else. -/
def isDelaySlotTransfer (insn : Word) : Bool :=
  let opc := opField insn
  let fnt := functField insn
  opc = 0x02#6 || opc = 0x03#6 || opc = 0x04#6 || opc = 0x05#6 || opc = 0x06#6 || opc = 0x07#6 ||
    opc = 0x01#6 || (opc = 0x00#6 && (fnt = 0x08#6 || fnt = 0x09#6))

/-- The cases that are not branches or jumps: `execPlain` and the two traps. -/
def execNonBranch (pc insn : Word) (c : Cpu M) : Exec M :=
  if opField insn = 0x00#6 ∧ functField insn = 0x0C#6 then
    let c := (R.psxSyscall (trapCode insn) { c with pc := pc }).2
    if c.pc = 0#32 then .next c else .transfer c
  else if opField insn = 0x00#6 ∧ functField insn = 0x0D#6 then
    .transfer (R.psxBreak (trapCode insn) pc c)
  else
    match execPlain R insn c with
    | .ok c => .next c
    | .error reason => .abort ⟨pc, insn, reason⟩ c

/-- `exec_delay_slot`: how the instruction returns is not looked at, only whether it was refused. -/
def execDelaySlot (fetch : Word → Word) (pc : Word) (c : Cpu M) : Option Unsupported × Cpu M :=
  let insn := fetch pc
  if isDelaySlotTransfer insn then (some ⟨pc, insn, "control-transfer in delay slot"⟩, c)
  else
    match execNonBranch R pc insn c with
    | .next c | .transfer c => (none, c)
    | .abort u c => (some u, c)

/-- The common end of every transfer: the delay slot, then `cpu->pc`. -/
def execTransfer (fetch : Word → Word) (pc target : Word) (c : Cpu M) : Exec M :=
  match execDelaySlot R fetch (pc + 4) c with
  | (none, c) => .transfer { c with pc := target }
  | (some u, c) => .abort u { c with pc := target }

def execOne (fetch : Word → Word) (pc : Word) (c : Cpu M) : Exec M :=
  let insn := fetch pc
  let rs := c.gpr (rsField insn)
  let rt := c.gpr (rtField insn)
  -- the source decides before the slot and selects the target after it
  let branch (taken : Bool) (c : Cpu M) :=
    execTransfer R fetch pc (if taken then branchTarget pc insn else pc + 8) c
  match opField insn with
  | 0x00 =>
    match functField insn with
    | 0x08 => execTransfer R fetch pc rs c
    | 0x09 =>
      let rd := rdField insn
      execTransfer R fetch pc rs (c.writeBack (if rd = 0#5 then 31 else rd) (pc + 8))
    | _ => execNonBranch R pc insn c
  | 0x01 =>
    match rtField insn with
    | 0x00 => branch (rs.slt 0#32) c
    | 0x01 => branch ((0#32).sle rs) c
    | 0x10 => branch (rs.slt 0#32) (c.setGpr 31 (pc + 8))
    | 0x11 => branch ((0#32).sle rs) (c.setGpr 31 (pc + 8))
    | _ => .abort ⟨pc, insn, "REGIMM rt"⟩ c
  | 0x02 => execTransfer R fetch pc (jumpTarget pc insn) c
  | 0x03 => execTransfer R fetch pc (jumpTarget pc insn) (c.setGpr 31 (pc + 8))
  | 0x04 => branch (rs = rt) c
  | 0x05 => branch (rs ≠ rt) c
  | 0x06 => branch (rs.sle 0#32) c
  | 0x07 => branch ((0#32).slt rs) c
  | _ => execNonBranch R pc insn c

/-! ## 4. Which part of the switch runs -/

section
variable {R} {fetch : Word → Word} {pc : Word}

theorem execOne_of_not_transfer (c : Cpu M) (h : isDelaySlotTransfer (fetch pc) = false) :
    execOne R fetch pc c = execNonBranch R pc (fetch pc) c := by
  simp only [isDelaySlotTransfer] at h
  simp only [execOne]
  split
  · split <;> simp_all
  all_goals simp_all

/-- `SYSCALL` or `BREAK`. -/
def isTrap (insn : Word) : Bool :=
  opField insn = 0x00#6 && (functField insn = 0x0C#6 || functField insn = 0x0D#6)

theorem execNonBranch_of_not_trap {insn : Word} (c : Cpu M) (h : isTrap insn = false) :
    execNonBranch R pc insn c =
      match execPlain R insn c with
      | .ok c => .next c
      | .error reason => .abort ⟨pc, insn, reason⟩ c := by
  simp only [isTrap, Bool.and_eq_false_iff, Bool.or_eq_false_iff, decide_eq_false_iff_not] at h
  unfold execNonBranch
  rw [if_neg (by tauto), if_neg (by tauto)]

theorem execPlain_pc {insn : Word} {c c' : Cpu M} (h : execPlain R insn c = .ok c') :
    c'.pc = c.pc := by
  simp only [execPlain] at h
  split at h
  case h_1 =>
    simp only [execSpecial] at h
    split at h <;> cases h <;> rfl
  case h_10 =>
    simp only [execCop0] at h
    split_ifs at h <;> cases h <;> rfl
  case h_11 =>
    simp only [execCop2] at h
    split_ifs at h <;> cases h <;> rfl
  all_goals cases h <;> rfl

end

end

end PsxRecomp
