import PsxRecomp.Analysis.ControlFlow
import PsxRecomp.Emit.CodeGen

/-!
# `Emit/Block.lean` — `CodeGenerator::translate_basic_block`

`recompiler/src/code_generator.cpp`, with CPS on (the default): the text written for one basic block.
The words of the block become statements in order; the exit becomes its link, the delay slot and the
transfer. A `jr` whose target was loaded from a table becomes a `switch` over the entries that have a
label.

The text is a list of labels and statements, each statement with the address of the word it is written
for.
-/

set_option autoImplicit false

namespace PsxRecomp.CodeGen

open CLang

inductive Emitted where
  /-- `block_X:` -/
  | label (a : Word)
  /-- the statement written for the word at `addr` -/
  | code (addr : Word) (s : CS)
  /-- `func_X(cpu); return;` -/
  | tailCall (a : Word)

/-! ## 1. Branch conditions and links -/

/-- `generate_branch_condition` -/
def branchCondition (instr : Word) : CE :=
  let rs := cgpr (rsField instr)
  let rt := cgpr (rtField instr)
  -- "unknown branch condition: defaults to not-taken"
  let unknown := cint 0
  match opField instr with
  | 0x01 =>
    match rtField instr with
    | 0x00 => .cmp .lt (ci32 rs) (cint 0)
    | 0x01 => .cmp .ge (ci32 rs) (cint 0)
    | 0x10 => .cmp .lt (ci32 rs) (cint 0)
    | 0x11 => .cmp .ge (ci32 rs) (cint 0)
    | _ => unknown
  | 0x04 | 0x14 => .cmp .eq rs rt
  | 0x05 | 0x15 => .cmp .ne rs rt
  | 0x06 | 0x16 => .cmp .le (ci32 rs) (cint 0)
  | 0x07 | 0x17 => .cmp .gt (ci32 rs) (cint 0)
  | _ => unknown

/-- `BLTZAL` and `BGEZAL` -/
def branchLinks (instr : Word) : Bool :=
  opField instr = 0x01#6 && (rtField instr = 0x10#5 || rtField instr = 0x11#5)

def linkCode (exit : ControlFlowInstr) (addr : Word) : CS :=
  match exit.type with
  | .jumpLink => .store (.gpr 31) (cuint (addr + 8#32))
  | .jumpLinkReg =>
    let rd := rdField exit.instruction
    if rd ≠ 0#5 then .store (.gpr rd) (cuint (addr + 8#32)) else .skip
  | .branch =>
    if branchLinks exit.instruction then .store (.gpr 31) (cuint (addr + 8#32)) else .skip
  | _ => .skip

/-! ## 2. Jump tables -/

def ramToRom (addr : Word) (exe : Exe) : Word :=
  let phys := addr &&& 0x1FFFFFFF#32
  let exePhys := exe.loadAddress &&& 0x1FFFFFFF#32
  if exe.codeSize ≠ 0#32 ∧ exePhys ≤ phys ∧ phys < exePhys + exe.codeSize then
    exe.loadAddress + (phys - exePhys)
  else if 0x00030000#32 ≤ phys ∧ phys ≤ 0x0005AFFF#32 then
    0xBFC18000#32 + (phys - 0x00030000#32)
  else addr

/-- The base and the length of the table a `jr` reads, if there is one -/
def jumpTable (exe : Exe) (functionStart : Word) (exit : ControlFlowInstr) : Option (Word × Nat) :=
  let t := TableScan.scan exe functionStart (rsField exit.instruction) 40 (exit.address - 4#32) {}
  match t.lui with
  | some lui =>
    let base := lui + t.addiu.1.getD 0#32 + t.lwOffset
    if 0#32 < t.count ∧ t.count < 512#32 ∧ base ≠ 0#32 then some (base, t.count.toNat) else none
  | none => none

def tableEntries (exe : Exe) (table : Word × Nat) : List Word :=
  (List.range table.2).filterMap fun i =>
    exe.readWord (ramToRom table.1 exe + BitVec.ofNat 32 (4 * i))

/-! ## 3. One block -/

/-- What `translate_basic_block` reads beside the block -/
structure Context where
  exe : Exe
  config : Config
  cfg : ControlFlowGraph
  /-- `extra_labels_` -/
  extraLabels : List Word
  /-- `known_functions_` -/
  known : List Word

section
variable (g : Context)

/-- `cpu->pc = e; return;` -/
def publish (e : CE) : CS := .seq (.store .pc e) .ret

/-- A `goto` inside the function, or out of it -/
def jumpTo (a : Word) : CS :=
  if g.cfg.hasBlock a then .goto a else publish (cuint a)

/-- The cases of the `switch`: the first entry of each place, if the place has a label -/
def switchTargets (entries : List Word) : List (Word × Word) :=
  let rec go : List Word → List Word → List (Word × Word)
    | [], _ => []
    | e :: rest, seen =>
      let rom := ramToRom e g.exe
      if rom ∈ seen then go rest seen
      else if g.cfg.hasBlock rom ∨ rom ∈ g.extraLabels then
        (e, rom) :: go rest (rom :: seen)
      else go rest (rom :: seen)
  go entries []

/-- `switch (r) { case X: goto block_Y; … default: cpu->pc = r; return; }` -/
def switchCode (r : Reg) : List (Word × Word) → CS
  | [] => publish (cgpr r)
  | (runtime, rom) :: rest =>
    .ite (.cmp .eq (cgpr r) (cuint runtime)) (.goto rom) (switchCode r rest)

/-- `lw $ra, offset($a0)` somewhere in the function -/
def raLoadedFromNonSp : Bool :=
  g.cfg.blocks.any fun b =>
    (List.range ((b.endAddr.toNat - b.startAddr.toNat + 3) / 4)).any fun i =>
      match g.exe.readWord (b.startAddr + BitVec.ofNat 32 (4 * i)) with
      | some w => opField w = 0x23#6 && rtField w = 31#5 && rsField w = 4#5
      | none => false

/-- The transfer, behind the delay slot. `cond` is the saved branch condition. -/
def transferCode (b : BasicBlock) (addr : Word) (cond : CE) : CS :=
  let exit := b.exitInstr
  let rs := rsField exit.instruction
  match exit.type with
  | .branch =>
    .seq (if branchLinks exit.instruction then .store (.gpr 31) (cuint (addr + 8#32)) else .skip)
      (match b.successors with
      | [taken, notTaken] => .ite cond (.goto taken) (.goto notTaken)
      | _ => .ite cond (jumpTo g exit.target) (jumpTo g (exit.address + 8#32)))
  | .jump =>
    match b.successors with
    | a :: _ => .goto a
    | [] => if exit.target ≠ 0#32 then publish (cuint exit.target) else .skip
  | .ret =>
    if raLoadedFromNonSp g then
      .seqs [.store .pc (cgpr 31), .expr (.call0 .psxRestoreStateEscape), .ret]
    else publish (cgpr 31)
  | .jumpRegister =>
    match jumpTable g.exe g.cfg.functionStart exit with
    | some table => switchCode rs (switchTargets g (tableEntries g.exe table))
    | none => publish (cgpr rs)
  | .jumpLink =>
    .seq (.store (.gpr 31) (cuint (exit.address + 8#32))) (publish (cuint exit.target))
  | .jumpLinkReg =>
    let rd := rdField exit.instruction
    .block (.seqs [.decl .u32 "_t" (cgpr rs),
      if rd ≠ 0#5 then .store (.gpr rd) (cuint (exit.address + 8#32)) else .skip,
      publish (.var "_t")])
  | .none => .skip

/-- The exit of a block, at `addr` -/
def exitCode (b : BasicBlock) (addr : Word) : List Emitted :=
  let exit := b.exitInstr
  let cond := branchCondition exit.instruction
  let link := Emitted.code addr (linkCode exit addr)
  match (if exit.hasDelaySlot then g.exe.readWord (addr + 4#32) else none) with
  | some slot =>
    let slotCode := translateInstruction g.config slot (addr + 4#32)
    if exit.isLikely then
      [link, .code (addr + 4#32) (.ite cond (.block slotCode) .skip),
        .code addr (transferCode g b addr cond)]
    else if exit.type = .branch then
      -- the condition is the one before the delay slot
      [link, .code addr (.decl .i32 "_bc" cond), .code (addr + 4#32) slotCode,
        .code addr (transferCode g b addr (.var "_bc"))]
    else [link, .code (addr + 4#32) slotCode, .code addr (transferCode g b addr cond)]
  | none => [link, .code addr (transferCode g b addr cond)]

/-- The delay slot of the exit is the last word of the block. -/
def slotInBlock (b : BasicBlock) : Bool :=
  b.exitInstr.hasDelaySlot && b.exitInstr.type ≠ .none && b.exitInstr.address < b.endAddr

def exitBranchAddr (b : BasicBlock) : Word :=
  if slotInBlock b then b.endAddr - 4#32 else b.endAddr

/-- The text for the word at `addr`: a label if a table jumps there, then the statement or the exit -/
def wordCode (b : BasicBlock) (addr instr : Word) : List Emitted :=
  (if addr ≠ b.startAddr ∧ addr ∈ g.extraLabels then [.label addr] else []) ++
    if isControlFlow instr then if addr = exitBranchAddr b then exitCode g b addr else []
    else [.code addr (translateInstruction g.config instr addr)]

/-- The words from `addr` on -/
def wordsCode (b : BasicBlock) : Nat → Word → List Emitted
  | 0, _ => []
  | fuel + 1, addr =>
    if b.endAddr < addr then []
    else
      match g.exe.readWord addr with
      | none => []
      | some instr =>
        -- the delay slot is emitted as part of the exit
        if slotInBlock b ∧ addr = b.endAddr then []
        else wordCode g b addr instr ++ wordsCode b fuel (addr + 4#32)

def translateBasicBlock (b : BasicBlock) : List Emitted :=
  .label b.startAddr :: wordsCode g b b.instructionCount.toNat b.startAddr ++
    if b.exitInstr.type = .none ∧ b.successors = [] ∧ b.endAddr + 4#32 ∈ g.known then
      [.tailCall (b.endAddr + 4#32)]
    else []

end

end PsxRecomp.CodeGen
