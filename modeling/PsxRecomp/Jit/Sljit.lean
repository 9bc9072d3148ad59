import Mathlib.Data.Finset.Card
import Mathlib.Data.Finset.Lattice.Fold
import PsxRecomp.Lib.Staged
import PsxRecomp.Jit.Lir

/-!
# `Jit/Sljit.lean` — the overlay JIT

`runtime/src/overlay_sljit.c`: the block-local register cache, the emitters of single instructions
and `overlay_sljit_try_compile`, in CPS mode (`g_psx_cps_mode`). The emitters are `Emit` programs
in the order of the source's calls; what they do to the cache and what code they emit are both
read off the same text.

The widescreen hooks (`emit_ws_cull`, the backdrop sites) are left out, and so are the statistics,
the serialisation and the failures of the sljit library itself.
-/

set_option autoImplicit false

namespace PsxRecomp.Jit

open Linear Staged

/-! ## 1. The register cache -/

/-- `GprSlot`; `reg` is `-1` in the source when the slot is free. -/
structure GprSlot where
  reg : Option Reg
  dirty : Bool
  pinned : Bool
  lru : Nat
  deriving DecidableEq, Repr

/-- `s_gpr` (its `s_gpr_slots` active slots) and `s_gpr_lru`. -/
structure GprCache where
  slots : List GprSlot
  lru : Nat
  deriving DecidableEq, Repr

abbrev Emit := Gen GprCache Instr

open Gen (emit state modify)

def emitOp (o : Op) : Emit Unit := emit (.op o)

def GprCache.update (κ : GprCache) (k : Nat) (f : GprSlot → GprSlot) : GprCache :=
  { κ with slots := κ.slots.modify k f }

def GprSlot.free (s : GprSlot) : GprSlot := { s with reg := none, dirty := false, pinned := false }

def gprReset : Emit Unit := modify fun κ => { κ with slots := κ.slots.map .free }

/-- The store of a slot, if it holds a register that was written. -/
def GprSlot.spill (k : Nat) (s : GprSlot) : List Instr :=
  match s.reg with
  | some n => if s.dirty then [.op (.store32 (.gpr n) (.reg (.slot k)))] else []
  | none => []

/-- What the loop of `gpr_flush` emits, from slot `k` on. -/
def flushCode : Nat → List GprSlot → List Instr
  | _, [] => []
  | k, s :: ss => s.spill k ++ flushCode (k + 1) ss

def GprSlot.clean (s : GprSlot) : GprSlot := if s.reg.isSome then { s with dirty := false } else s

def gprFlush : Emit Unit := fun κ =>
  ⟨(), flushCode 0 κ.slots, { κ with slots := κ.slots.map .clean }⟩

def gprFind (κ : GprCache) (n : Reg) : Option Nat :=
  κ.slots.findIdx? fun s => s.reg = some n

/-- The loop of `gpr_alloc`, from slot `j` on: the first free slot, else the least recently used of
those not pinned. `victim` carries its `lru` (`best`). The counter stays far below the `0xFFFFFFFF`
that `best` starts from: a fragment has at most 2048 words. -/
def gprVictim : Nat → Option (Nat × Nat) → List GprSlot → Option Nat
  | _, victim, [] => victim.map Prod.fst
  | j, victim, s :: ss =>
      if s.reg = none then some j
      else
        let better := !s.pinned && (victim.elim true fun v => s.lru < v.2)
        gprVictim (j + 1) (if better then some (j, s.lru) else victim) ss

def gprAlloc (n : Reg) : Emit Nat := do
  let κ ← state
  match gprFind κ n with
  | some k => return k
  | none =>
    let k := (gprVictim 0 none κ.slots).getD 0
    evict k
    modify fun κ => κ.update k fun s => { s with reg := some n, dirty := false, pinned := false }
    return k
where
  /-- Save what the slot holds. -/
  evict (k : Nat) : Emit Unit := fun κ => ⟨(), (κ.slots[k]?.map (GprSlot.spill k)).getD [], κ⟩

/-- `s_gpr[k].lru = ++s_gpr_lru`, together with another update of the slot. -/
def touch (k : Nat) (f : GprSlot → GprSlot) : Emit Unit :=
  modify fun κ => { κ.update k fun s => { f s with lru := κ.lru + 1 } with lru := κ.lru + 1 }

def gprSrc (n : Reg) : Emit Opnd := do
  if n = 0#5 then return .imm 0
  else
    let κ ← state
    let k ← match gprFind κ n with
      | some k => pure k
      | none => do
        let k ← gprAlloc n
        emitOp (.mov32 (.slot k) (.mem (.gpr n)))
        pure k
    touch k fun s => { s with pinned := true }
    return .reg (.slot k)

def gprDst (n : Reg) : Emit HReg := do
  if n = 0#5 then return .r0
  else
    let k ← gprAlloc n
    touch k fun s => { s with dirty := true }
    return .slot k

def gprUnpin : Emit Unit :=
  modify fun κ => { κ with slots := κ.slots.map fun s => { s with pinned := false } }

/-! ## 2. Emitters of single instructions -/

def Opnd.isImm : Opnd → Bool
  | .imm _ => true
  | _ => false

def asReg (a : Opnd) (scratch : HReg) : Emit Opnd :=
  match a with
  | .imm w => do
    emitOp (.mov32 scratch (.imm w))
    return .reg scratch
  | a => return a

/-- `if (a == SLJIT_IMM && b == SLJIT_IMM) as_reg(a)` -/
def notBothImm (a b : Opnd) : Emit Opnd :=
  if a.isImm && b.isImm then asReg a .r0 else pure a

def emitAluRR (op : Op32) (rd rs rt : Reg) : Emit Unit := do
  let a ← gprSrc rs
  let b ← gprSrc rt
  let a ← notBothImm a b
  let d ← gprDst rd
  emitOp (.op32 op d a b)
  gprUnpin

def emitShiftImm (op : Op32) (rd rt : Reg) (sh : BitVec 5) : Emit Unit := do
  let a ← gprSrc rt
  let a ← asReg a .r0
  let d ← gprDst rd
  emitOp (.op32 op d a (.imm (sh.setWidth 32)))
  gprUnpin

def emitShiftVar (op : Op32) (rd rt rs : Reg) : Emit Unit := do
  let c ← gprSrc rs
  match c with
  | .imm w =>
    let a ← gprSrc rt
    let a ← asReg a .r0
    let d ← gprDst rd
    emitOp (.op32 op d a (.imm (w &&& 31)))
  | c =>
    emitOp (.op32 .and .r1 c (.imm 31))
    let a ← gprSrc rt
    let a ← asReg a .r0
    let d ← gprDst rd
    emitOp (.op32 op d a (.reg .r1))
  gprUnpin

/-- `emit_slt`; the second operand is a register (`has_rt`) or an immediate. -/
def emitSlt (cc : Cond) (dst rs : Reg) (second : Reg ⊕ Word) : Emit Unit := do
  let a ← gprSrc rs
  let b ← match second with
    | .inl rt => gprSrc rt
    | .inr w => pure (.imm w)
  let a ← notBothImm a b
  let d ← gprDst dst
  emitOp (.cmp32 a b)
  emitOp (.setFlag d cc)
  gprUnpin

/-- The effective address into `R0`. -/
def emitAddr (a : Opnd) (simm : Word) : Emit Unit := do
  emitOp (.mov32 .r0 a)
  if simm = 0#32 then pure () else emitOp (.op32 .add .r0 (.reg .r0) (.imm simm))

def emitLoad (f : ReadFn) (ext : Option Ext) (rt rs : Reg) (simm : Word) : Emit Unit := do
  let a ← gprSrc rs
  emitAddr a simm
  emitOp (.icallRead f)
  match ext with
  | some e => emitOp (.movExt e .r0 (.reg .r0))
  | none => pure ()
  let d ← gprDst rt
  emitOp (.mov32 d (.reg .r0))
  gprUnpin

def emitStore (f : WriteFn) (rt rs : Reg) (simm : Word) : Emit Unit := do
  let a ← gprSrc rs
  emitAddr a simm
  let b ← gprSrc rt
  emitOp (.mov32 .r1 b)
  emitOp (.icallWrite f)
  gprUnpin

def emitHelper2 (f : Helper) (insn : Word) : Emit Unit := do
  gprFlush
  emitOp (.icallHelper f insn)
  gprReset

/-- `NOR` -/
def emitNor (rd rs rt : Reg) : Emit Unit := do
  let a ← gprSrc rs
  let b ← gprSrc rt
  let a ← notBothImm a b
  let d ← gprDst rd
  emitOp (.op32 .or d a b)
  emitOp (.op32 .xor d (.reg d) (.imm (-1)))
  gprUnpin

/-- `MFHI`, `MFLO` and `LUI`: one move into the destination. -/
def emitMove (rd : Reg) (s : Opnd) : Emit Unit := do
  let d ← gprDst rd
  emitOp (.mov32 d s)

/-- `MTHI` and `MTLO` -/
def emitMoveTo (f : Field) (rs : Reg) : Emit Unit := do
  let a ← gprSrc rs
  let a ← asReg a .r0
  emitOp (.store32 f a)
  gprUnpin

/-- `MULT` and `MULTU` -/
def emitMult (ext : Ext) (rs rt : Reg) : Emit Unit := do
  let a ← gprSrc rs
  emitOp (.movExt ext .r0 a)
  let b ← gprSrc rt
  emitOp (.movExt ext .r1 b)
  gprUnpin
  emitOp (.mul .r0 .r0 .r1)
  emitOp (.store32 .lo (.reg .r0))
  emitOp (.lshr .r0 .r0 32)
  emitOp (.store32 .hi (.reg .r0))

/-- The operands of `DIV` and `DIVU` into `R0` and `R1`. -/
def emitDivOperands (rs rt : Reg) : Emit Unit := do
  let a ← gprSrc rs
  emitOp (.mov32 .r0 a)
  let b ← gprSrc rt
  emitOp (.mov32 .r1 b)
  gprUnpin

/-- `hi` and `lo` from the division that ran. -/
def divResult (o : Op) : List Op := [o, .store32 .lo (.reg .r0), .store32 .hi (.reg .r1)]

def emitDiv (rs rt : Reg) : Emit Unit := do
  emitDivOperands rs rt
  emit (.select
    [((.equal, .r1, 0),
      -- b == 0: lo = (a < 0) ? 1 : -1, computed as 2 * (a < 0) - 1
      [.cmp32 (.reg .r0) (.imm 0), .setFlag .r2 .sigLess,
        .op32 .shl .r2 (.reg .r2) (.imm 1), .op32 .sub .r2 (.reg .r2) (.imm 1),
        .store32 .lo (.reg .r2), .store32 .hi (.reg .r0)]),
     ((.notEqual, .r0, 0x80000000), divResult .divmodS32),
     ((.notEqual, .r1, -1), divResult .divmodS32)]
    [.store32 .lo (.imm 0x80000000), .store32 .hi (.imm 0)])

def emitDivu (rs rt : Reg) : Emit Unit := do
  emitDivOperands rs rt
  emit (.select
    [((.equal, .r1, 0), [.store32 .lo (.imm 0xFFFFFFFF), .store32 .hi (.reg .r0)])]
    (divResult .divmodU32))

/-- `ADDI` and `ADDIU`; `rs == $0` is the `li` idiom. -/
def emitAddi (rt rs : Reg) (simm : Word) : Emit Unit := do
  let a ← gprSrc rs
  let d ← gprDst rt
  match a with
  | .imm w => emitOp (.mov32 d (.imm (w + simm)))
  | a => emitOp (.op32 .add d a (.imm simm))
  gprUnpin

/-- `ANDI`, `ORI` and `XORI` -/
def emitLogicImm (op : Op32) (rt rs : Reg) (imm : Word) : Emit Unit := do
  let a ← gprSrc rs
  let a ← asReg a .r0
  let d ← gprDst rt
  emitOp (.op32 op d a (.imm imm))
  gprUnpin

/-- `EMIT_OK`, `EMIT_TERM` and `EMIT_ABORT` -/
inductive Status where
  | ok | term | abort
  deriving DecidableEq, Repr

def done (m : Emit Unit) : Emit Status := do
  m
  return .ok

def emitSpecial (insn : Word) : Emit Status :=
  let rs := rsField insn
  let rt := rtField insn
  let rd := rdField insn
  let sh := shamtField insn
  match functField insn with
  | 0x00 => done (emitShiftImm .shl rd rt sh)
  | 0x02 => done (emitShiftImm .lshr rd rt sh)
  | 0x03 => done (emitShiftImm .ashr rd rt sh)
  | 0x04 => done (emitShiftVar .shl rd rt rs)
  | 0x06 => done (emitShiftVar .lshr rd rt rs)
  | 0x07 => done (emitShiftVar .ashr rd rt rs)
  | 0x08 => pure (if rs = 31#5 then .term else .abort)
  | 0x0F => pure .ok
  | 0x20 => done (emitAluRR .add rd rs rt)
  | 0x21 => done (emitAluRR .add rd rs rt)
  | 0x22 => done (emitAluRR .sub rd rs rt)
  | 0x23 => done (emitAluRR .sub rd rs rt)
  | 0x24 => done (emitAluRR .and rd rs rt)
  | 0x25 => done (emitAluRR .or rd rs rt)
  | 0x26 => done (emitAluRR .xor rd rs rt)
  | 0x27 => done (emitNor rd rs rt)
  | 0x2A => done (emitSlt .sigLess rd rs (.inl rt))
  | 0x2B => done (emitSlt .less rd rs (.inl rt))
  | 0x10 => done (emitMove rd (.mem .hi))
  | 0x12 => done (emitMove rd (.mem .lo))
  | 0x11 => done (emitMoveTo .hi rs)
  | 0x13 => done (emitMoveTo .lo rs)
  | 0x18 => done (emitMult .s32 rs rt)
  | 0x19 => done (emitMult .u32 rs rt)
  | 0x1A => done (emitDiv rs rt)
  | 0x1B => done (emitDivu rs rt)
  | _ => pure .abort

def emitOne (insn : Word) : Emit Status :=
  let rs := rsField insn
  let rt := rtField insn
  let simm := simm16Field insn
  match opField insn with
  | 0x00 => emitSpecial insn
  | 0x08 => done (emitAddi rt rs simm)
  | 0x09 => done (emitAddi rt rs simm)
  | 0x0A => done (emitSlt .sigLess rt rs (.inr simm))
  | 0x0B => done (emitSlt .less rt rs (.inr simm))
  | 0x0C => done (emitLogicImm .and rt rs (uimm16Field insn))
  | 0x0D => done (emitLogicImm .or rt rs (uimm16Field insn))
  | 0x0E => done (emitLogicImm .xor rt rs (uimm16Field insn))
  | 0x0F => done (emitMove rt (.imm (uimm16Field insn <<< 16)))
  | 0x20 => done (emitLoad .byte (some .s8) rt rs simm)
  | 0x21 => done (emitLoad .half (some .s16) rt rs simm)
  | 0x23 => done (emitLoad .word none rt rs simm)
  | 0x24 => done (emitLoad .byte (some .u8) rt rs simm)
  | 0x25 => done (emitLoad .half (some .u16) rt rs simm)
  | 0x28 => done (emitStore .byte rt rs simm)
  | 0x29 => done (emitStore .half rt rs simm)
  | 0x2B => done (emitStore .word rt rs simm)
  | 0x22 => done (emitHelper2 .memx insn)
  | 0x26 => done (emitHelper2 .memx insn)
  | 0x2A => done (emitHelper2 .memx insn)
  | 0x2E => done (emitHelper2 .memx insn)
  | 0x12 => done (emitHelper2 .cop2 insn)
  | 0x32 => done (emitHelper2 .cop2 insn)
  | 0x3A => done (emitHelper2 .cop2 insn)
  | _ => pure .abort

/-! ## 3. Control flow -/

/-- `CTRL_*`; a target is a byte offset from the entry of the fragment. -/
inductive Ctrl where
  | none | ret | call | tailjump | abort
  | branch (tbyte : Int)
  | jump (tbyte : Int)
  deriving DecidableEq, Repr

def classifyControl (insn : Word) (off : Nat) (entryPhys : Word) : Ctrl :=
  let op := opField insn
  let fn := functField insn
  let rt := rtField insn
  let relative : Int := off + 4 + (simm16Field insn).toInt * 4
  if op = 0x00#6 then
    if fn = 0x08#6 then (if rsField insn = 31#5 then .ret else .tailjump)
    else if fn = 0x09#6 then .call
    else .none
  else if op = 0x03#6 then .call
  else if op = 0x02#6 then .jump (((target26 insn).toNat * 4 : Nat) - (entryPhys.toNat : Int))
  else if op = 0x04#6 ∨ op = 0x05#6 ∨ op = 0x06#6 ∨ op = 0x07#6 then .branch relative
  else if op = 0x01#6 then
    if rt = 0x00#5 ∨ rt = 0x01#5 ∨ rt = 0x10#5 ∨ rt = 0x11#5 then .branch relative else .abort
  else .none

/-- The flag of a condition on one operand against zero, into `R_CTRL`. -/
def emitCondZero (rs : Reg) (cc : Cond) : Emit Unit := do
  let a ← gprSrc rs
  let a ← asReg a .r0
  emitOp (.cmp32 a (.imm 0))
  emitOp (.setFlag .ctrl cc)

def emitCondEq (rs rt : Reg) (cc : Cond) : Emit Unit := do
  let a ← gprSrc rs
  let b ← gprSrc rt
  let a ← notBothImm a b
  emitOp (.cmp32 a b)
  emitOp (.setFlag .ctrl cc)

def emitCondToS1 (insn : Word) : Emit Unit := do
  let rs := rsField insn
  let rt := rtField insn
  match opField insn with
  | 0x04 => emitCondEq rs rt .equal
  | 0x05 => emitCondEq rs rt .notEqual
  | 0x06 => emitCondZero rs .sigLessEqual
  | 0x07 => emitCondZero rs .sigGreater
  | _ => emitCondZero rs (if rt = 0x00#5 ∨ rt = 0x10#5 then .sigLess else .sigGreaterEqual)
  gprUnpin

/-- `PEND_*`: the transfer that waits for its delay slot. -/
inductive Pending where
  | none | ret | call | tail
  | br (tw : Nat) (cond : Bool)
  deriving DecidableEq, Repr

/-- `BLTZAL` and `BGEZAL` -/
def isLinkBranch (insn : Word) : Bool :=
  opField insn = 0x01#6 && (rtField insn = 0x10#5 || rtField insn = 0x11#5)

/-- A word of the fragment that is no delay slot: its code and the transfer it leaves pending, or
`none` if the fragment is given up. -/
def emitHead (entry entryPhys : Word) (i : Nat) (insn : Word) : Emit (Option Pending) := do
  let pc := entry + BitVec.ofNat 32 (4 * i)
  match classifyControl insn (4 * i) entryPhys with
  | .abort => return none
  | .ret => return some .ret
  | .branch tbyte =>
    -- the link is written first, so a predicate on $31 reads the link
    if isLinkBranch insn then emitMove 31 (.imm (pc + 8)) else pure ()
    emitCondToS1 insn
    return some (.br (tbyte / 4).toNat true)
  | .jump tbyte => return some (.br (tbyte / 4).toNat false)
  | .tailjump =>
    let a ← gprSrc (rsField insn)
    emitOp (.mov32 .ctrl a)
    gprUnpin
    return some .tail
  | .call =>
    if opField insn = 0x03#6 then emitMove 31 (.imm (pc + 8))
    else
      let a ← gprSrc (rsField insn)
      emitOp (.mov32 .ctrl a)
      let d ← gprDst (if rdField insn = 0#5 then 31 else rdField insn)
      emitOp (.mov32 d (.imm (pc + 8)))
      gprUnpin
    return some .call
  | .none =>
    match ← emitOne insn with
    | .ok => return some .none
    | _ => return none

def emitTransfer (p : Pending) : Emit (Option Pending) := do
  match p with
  | .ret =>
    -- `$ra` is read here, after the slot
    emitOp (.mov32 .r0 (.mem (.gpr 31)))
    emitOp (.store32 .pc (.reg .r0))
    emit .ret
    gprReset
    return some .none
  | .tail =>
    emitOp (.store32 .pc (.reg .ctrl))
    emit .ret
    gprReset
    return some .none
  | .br tw true =>
    emit (.jumpIf tw)
    return some .none
  | .br tw false =>
    emit (.jump tw)
    gprReset
    return some .none
  -- a call would have to be re-entered at its return address
  | .call | .none => return none

/-- The delay slot of a pending transfer, and the transfer. -/
def emitSlot (entryPhys : Word) (i : Nat) (p : Pending) (insn : Word) : Emit (Option Pending) := do
  match classifyControl insn (4 * i) entryPhys with
  | .none =>
    match ← emitOne insn with
    | .ok =>
      gprFlush
      emitTransfer p
    | _ => return none
  | _ => return none

/-! ## 4. `overlay_sljit_try_compile` -/

def imgWord (bytes : Nat → BitVec 8) (off : Nat) : Word := Words.leWord bytes off

/-- The registers an instruction uses through the cache (`gpr_ref_mask`, as a set). -/
def gprRefMask (insn : Word) : Finset Reg :=
  let op := opField insn
  let fn := functField insn
  let rs := rsField insn
  let rt := rtField insn
  let rd := rdField insn
  let m : Finset Reg :=
    if op = 0x00#6 then
      if fn = 0x08#6 then {rs}
      else if fn = 0x09#6 then {rs, if rd = 0#5 then 31 else rd}
      else {rs, rt, rd}
    else if op = 0x01#6 then
      if rt = 0x10#5 ∨ rt = 0x11#5 then {rs, 31} else {rs}
    else if op = 0x03#6 then {31}
    else if 0x04#6 ≤ op ∧ op ≤ 0x07#6 then {rs, rt}
    else if 0x08#6 ≤ op ∧ op ≤ 0x0E#6 then {rs, rt}
    else if op = 0x0F#6 then {rt}
    else if (0x20#6 ≤ op ∧ op ≤ 0x25#6) ∨ op = 0x28#6 ∨ op = 0x29#6 ∨ op = 0x2B#6 then {rs, rt}
    else ∅
  m.erase 0

/-- What the first pass collects: the length, the targets of branches and jumps (byte offsets) and
the words that are delay slots. -/
structure Scan where
  fragWords : Nat
  brs : List Int
  ds : List Nat
  deriving DecidableEq, Repr

/-- The loop of the first pass, at word `i` with `fuel` words left; `word` is the image, where it
has one. -/
def scanFrom (word : Nat → Option Word) (entryPhys : Word) : Nat → Nat → Scan → Option Scan
  | 0, _, _ => none
  | fuel + 1, i, acc =>
    match word i with
    | none => none
    | some insn =>
      let slot : Scan := { acc with ds := (i + 1) :: acc.ds }
      match classifyControl insn (4 * i) entryPhys with
      | .abort => none
      | .ret => some { slot with fragWords := i + 2 }
      | .branch t | .jump t =>
        if acc.brs.length ≥ 512 then none
        else scanFrom word entryPhys fuel (i + 1) { slot with brs := t :: acc.brs }
      | .call | .tailjump => scanFrom word entryPhys fuel (i + 1) slot
      | .none => scanFrom word entryPhys fuel (i + 1) acc

/-- A target lies in the fragment, on a word, and on no delay slot. -/
def Scan.validTarget (s : Scan) (t : Int) : Bool :=
  0 ≤ t && t % 4 = 0 && (t / 4).toNat < s.fragWords && !s.ds.contains (t / 4).toNat

def Scan.isTarget (s : Scan) (i : Nat) : Bool := s.brs.any fun t => (t / 4).toNat = i

/-- The word of the fragment at `i`, with the label of a branch target before it. All edges into a
label agree on memory alone, so the fall-through edge is flushed before it and the cache dropped. -/
def emitWord (s : Scan) (entry entryPhys : Word) (i : Nat) (p : Pending) (insn : Word)
    (κ : GprCache) : Option (List (Item Nat Instr) × Pending × GprCache) :=
  let join := (do gprFlush; gprReset : Emit Unit) κ
  let label := if s.isTarget i then join.code.map .instr ++ [.label i] else []
  let κ := if s.isTarget i then join.gen else κ
  let out := (if p = .none then emitHead entry entryPhys i insn
    else emitSlot entryPhys i p insn) κ
  out.val.map fun p => (label ++ out.code.map .instr, p, out.gen)

/-- The loop of the second pass, from word `i` on. -/
def emitFrom (s : Scan) (entry entryPhys : Word) :
    Nat → Pending → GprCache → List Word → Option (List (Item Nat Instr))
  -- a transfer without a delay slot
  | _, p, _, [] => if p = .none then some [] else none
  | i, p, κ, insn :: words =>
    (emitWord s entry entryPhys i p insn κ).bind fun (code, p, κ) =>
      (emitFrom s entry entryPhys (i + 1) p κ words).map (code ++ ·)

/-- What sljit says of the host: `SLJIT_NUMBER_OF_SAVED_REGISTERS`, six or more on every target. -/
structure Target where
  savedRegisters : Nat
  enough : 6 ≤ savedRegisters

/-- `GPR_SLOTS_MAX`: `S0` and `S1` are taken. -/
def Target.gprSlotsMax (T : Target) : Nat := T.savedRegisters - 2

def maxFragInsns : Nat := 2048

/-- `overlay_sljit_try_compile`: the code of the fragment, if it is accepted. The labels bind
because every target was validated; the source checks that once more. -/
def tryCompile (T : Target) (entry : Word) (bytes : Nat → BitVec 8) (size : Nat) (imageBase : Word) :
    Option (List (Item Nat Instr)) :=
  let entryPhys := entry &&& 0x1FFFFFFF#32
  let basePhys := imageBase &&& 0x1FFFFFFF#32
  if entryPhys < basePhys then none
  else
    let off0 := entryPhys.toNat - basePhys.toNat
    let word (i : Nat) : Word := imgWord bytes (off0 + 4 * i)
    let image (i : Nat) : Option Word := if off0 + 4 * i + 4 ≤ size then some (word i) else none
    (scanFrom image entryPhys maxFragInsns 0 ⟨0, [], []⟩).bind fun s =>
      if s.fragWords > maxFragInsns ∨ off0 + 4 * s.fragWords > size ∨ !s.brs.all s.validTarget then
        none
      else
        let words := (List.range s.fragWords).map word
        let used : Finset Reg := words.foldr (fun w m => gprRefMask w ∪ m) ∅
        let slots := min used.card T.gprSlotsMax
        emitFrom s entry entryPhys 0 .none ⟨List.replicate slots ⟨none, false, false, 0⟩, 0⟩ words

end PsxRecomp.Jit
