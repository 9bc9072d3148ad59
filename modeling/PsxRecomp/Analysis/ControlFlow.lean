import PsxRecomp.Lib.Cuts
import PsxRecomp.Lib.Words
import PsxRecomp.Machine.Cpu

/-!
# `Analysis/ControlFlow.lean` — basic blocks

`recompiler/src/control_flow.cpp`: which words transfer control, and how `analyze_function` cuts the
range of a function into basic blocks. A cut is made at the start, at the entries of an alias group, at
every target inside the range and behind every delay slot; the exit of a block is then looked for in its
last two words. Executables are those `PS1ExeParser` accepts (`Exe`).

The loop list and the entry, exit and loop-header marks are left out; no statement is emitted from them.
-/

set_option autoImplicit false

namespace PsxRecomp

open Words BitVec

/-! ## 1. Executables and functions -/

/-- `PS1Executable`, with what `PS1ExeParser::validate_header` and `validate` check of its place in
memory. -/
structure Exe where
  loadAddress : Word
  codeData : List (BitVec 8)
  kseg0 : 0x80000000 ≤ loadAddress.toNat
  nonempty : 0 < codeData.length
  end_le : loadAddress.toNat + codeData.length ≤ 0x80200000

namespace Exe

def codeSize (exe : Exe) : Word := BitVec.ofNat 32 exe.codeData.length

def endAddress (exe : Exe) : Word := exe.loadAddress + exe.codeSize

def readWord (exe : Exe) (address : Word) : Option Word :=
  if address < exe.loadAddress ∨ exe.endAddress ≤ address then none
  else
    let offset := (address - exe.loadAddress).toNat
    if offset + 3 ≥ exe.codeData.length then none
    else some (leWord (fun i => exe.codeData.getD i 0) offset)

theorem toNat_endAddress (exe : Exe) :
    exe.endAddress.toNat = exe.loadAddress.toNat + exe.codeData.length := by
  have hend := exe.end_le
  rw [endAddress, codeSize, toNat_add, toNat_ofNat]
  omega

theorem readWord_isSome_iff {exe : Exe} {a : Word} :
    (exe.readWord a).isSome = true ↔
      exe.loadAddress.toNat ≤ a.toNat ∧ a.toNat + 4 ≤ exe.loadAddress.toNat + exe.codeData.length := by
  have he := exe.toNat_endAddress
  simp only [readWord]
  split_ifs with hout hpart
  · rw [lt_def, le_def, he] at hout
    simp only [Option.isSome_none, Bool.false_eq_true, false_iff]
    omega
  all_goals
    rw [lt_def, le_def, he] at hout
    rw [toNat_sub_of_le (by rw [le_def]; omega)] at hpart
    simp only [Option.isSome_none, Option.isSome_some, Bool.false_eq_true, false_iff, true_iff]
    omega

end Exe

def Aligned (a : Word) : Prop := a.toNat % 4 = 0

instance (a : Word) : Decidable (Aligned a) := inferInstanceAs (Decidable (_ = _))

/-- `Function`: the fields `analyze_function` reads -/
structure Function where
  startAddr : Word
  endAddr : Word
  aliasWalkLo : Word := 0
  aliasGroupEntries : List Word := []
  deriving DecidableEq, Repr

namespace Function

/-- `walk_lo`: an alias entry covers the range of its host. -/
def walkLo (f : Function) : Word := if f.aliasWalkLo ≠ 0 then f.aliasWalkLo else f.startAddr

def Contains (f : Function) (a : Word) : Prop := f.walkLo ≤ a ∧ a < f.endAddr

instance (f : Function) (a : Word) : Decidable (f.Contains a) := inferInstanceAs (Decidable (_ ∧ _))

/-- A range of instructions; the entries of an alias are instructions of it. -/
structure Placed (f : Function) : Prop where
  lo_aligned : Aligned f.walkLo
  end_aligned : Aligned f.endAddr
  lo_lt_end : f.walkLo < f.endAddr
  entry : f.aliasWalkLo ≠ 0 → f.Contains f.startAddr ∧ Aligned f.startAddr
  entries_aligned : f.aliasWalkLo ≠ 0 → ∀ e ∈ f.aliasGroupEntries, f.Contains e → Aligned e

end Function

/-! ## 2. Control-transfer words -/

inductive ControlFlowType where
  | none
  | branch
  | jump
  | jumpLink
  | jumpRegister
  | jumpLinkReg
  | ret
  deriving DecidableEq, Repr

/-- `ControlFlowInstr` without the mnemonic, which is for listings. -/
structure ControlFlowInstr where
  address : Word
  instruction : Word
  type : ControlFlowType
  target : Word
  hasDelaySlot : Bool
  isLikely : Bool
  deriving DecidableEq, Repr

def isControlFlow (instr : Word) : Bool :=
  let opcode := opField instr
  if opcode = 0x00#6 then functField instr = 0x08#6 || functField instr = 0x09#6
  else if opcode = 0x01#6 then true
  else if 0x04#6 ≤ opcode ∧ opcode ≤ 0x07#6 then true
  else if 0x14#6 ≤ opcode ∧ opcode ≤ 0x17#6 then true
  else opcode = 0x02#6 || opcode = 0x03#6

def analyzeInstruction (addr instr : Word) : ControlFlowInstr :=
  let cf : ControlFlowInstr := ⟨addr, instr, .none, 0, false, false⟩
  let branch : ControlFlowInstr :=
    { cf with type := .branch, target := branchTarget addr instr, hasDelaySlot := true }
  match opField instr with
  | 0x00 =>
    match functField instr with
    | 0x08 =>
      { cf with type := if rsField instr = 31#5 then .ret else .jumpRegister, hasDelaySlot := true }
    | 0x09 => { cf with type := .jumpLinkReg, hasDelaySlot := true }
    | _ => cf
  | 0x01 => branch
  | 0x04 | 0x05 | 0x06 | 0x07 => branch
  | 0x14 | 0x15 | 0x16 | 0x17 => { branch with isLikely := true }
  | 0x02 => { cf with type := .jump, target := jumpTarget addr instr, hasDelaySlot := true }
  | 0x03 => { cf with type := .jumpLink, target := jumpTarget addr instr, hasDelaySlot := true }
  | _ => cf

/-! ## 3. `analyze_function` -/

structure BasicBlock where
  startAddr : Word
  /-- the last instruction -/
  endAddr : Word
  instructionCount : Word
  exitInstr : ControlFlowInstr
  successors : List Word
  deriving DecidableEq, Repr

/-- `ControlFlowGraph`, with the blocks in the order of `block_order` -/
structure ControlFlowGraph where
  functionStart : Word
  functionEnd : Word
  blocks : List BasicBlock
  deriving DecidableEq, Repr

/-- `cfg.blocks.count(a)` -/
def ControlFlowGraph.hasBlock (cfg : ControlFlowGraph) (a : Word) : Bool :=
  cfg.blocks.any (·.startAddr = a)

/-- The addresses `walk_lo`, `walk_lo + 4`, … below `end_addr` -/
def Function.words (f : Function) : List Word :=
  (List.range ((f.endAddr.toNat - f.walkLo.toNat + 3) / 4)).map
    fun i => f.walkLo + BitVec.ofNat 32 (4 * i)

/-- The boundaries the word at `addr` makes -/
def scanWord (exe : Exe) (f : Function) (addr : Word) : List Word :=
  match exe.readWord addr with
  | none => []
  | some instr =>
    if isControlFlow instr then
      let target := (analyzeInstruction addr instr).target
      (if target ≠ 0#32 ∧ f.Contains target then [target] else []) ++
        -- after the delay slot is a new block
        if addr + 8#32 < f.endAddr ∧ f.Contains (addr + 8#32) then [addr + 8#32] else []
    else []

/-- `boundary_vec`, sorted -/
def boundaries (exe : Exe) (f : Function) : List Word :=
  Cuts.points <| f.walkLo ::
    (if f.aliasWalkLo ≠ 0 then f.startAddr :: f.aliasGroupEntries.filter (f.Contains ·) else []) ++
    f.words.flatMap (scanWord exe f)

/-- The transfer in the word at `a`, if it is one -/
def transferAt (exe : Exe) (a : Word) (otherwise : ControlFlowInstr) : ControlFlowInstr :=
  match exe.readWord a with
  | some w => if isControlFlow w then analyzeInstruction a w else otherwise
  | none => otherwise

def noExit (last : Word) : ControlFlowInstr := ⟨last, 0#32, .none, 0#32, false, false⟩

/-- `exit_instr`: the last word but one, or the last -/
def exitInstr (exe : Exe) (start last : Word) : ControlFlowInstr :=
  let exit := noExit last
  let exit := if start < last then transferAt exe (last - 4#32) exit else exit
  if exit.type = .none then transferAt exe last exit else exit

def successors (f : Function) (bounds : List Word) (exit : ControlFlowInstr) (last : Word) :
    List Word :=
  let inFunc (a : Word) : List Word := if f.Contains a ∧ a ∈ bounds then [a] else []
  let target := if exit.target ≠ 0#32 then inFunc exit.target else []
  match exit.type with
  | .branch => target ++ inFunc (exit.address + 8#32)
  | .jump => target
  | .jumpLink | .jumpLinkReg => inFunc (exit.address + 8#32)
  | .ret | .jumpRegister => []
  | .none => inFunc (last + 4#32)

def blockOf (exe : Exe) (f : Function) (bounds : List Word) (p : Word × Word) : BasicBlock :=
  let last := p.2 - 4#32
  let exit := exitInstr exe p.1 last
  ⟨p.1, last, (last - p.1) / 4#32 + 1#32, exit, successors f bounds exit last⟩

def basicBlock (exe : Exe) (f : Function) (bounds : List Word) (p : Word × Word) :
    Option BasicBlock :=
  if p.2 - 4#32 < p.1 then none else some (blockOf exe f bounds p)

def analyzeFunction (exe : Exe) (f : Function) : ControlFlowGraph :=
  let bounds := boundaries exe f
  ⟨f.walkLo, f.endAddr, (Cuts.pieces bounds f.endAddr).filterMap (basicBlock exe f bounds)⟩

/-! ## 4. Jump tables -/

/-- What the backward scan has seen: `none` is `0xFF` for a register and not found for an `ADDIU`. -/
structure TableScan where
  lwBase : Option Reg := none
  lwOffset : Word := 0#32
  /-- the two operands of the `ADDU` -/
  cand : Option (Reg × Reg) := none
  addiu : Option Word × Option Word := (none, none)
  lui : Option Word := none
  count : Word := 0#32
  deriving DecidableEq, Repr

/-- The word with the entry count, and the end of the scan -/
def TableScan.sltiu (si : Word) (t : TableScan) : Option TableScan :=
  if opField si = 0x0B#6 ∧ t.count = 0#32 then some { t with count := uimm16Field si }
  else if t.lui ≠ none ∧ t.count ≠ 0#32 then none
  else some t

/-- One word of the scan; `none` ends it. -/
def TableScan.step (jrRs : Reg) (si : Word) (t : TableScan) : Option TableScan :=
  let op := opField si
  let rs := rsField si
  let rt := rtField si
  if op = 0x23#6 ∧ rt = jrRs ∧ t.lwBase = none then
    some { t with lwBase := some rs, lwOffset := simm16Field si }
  else if op = 0x00#6 ∧ functField si = 0x21#6 ∧ t.lwBase = some (rdField si) ∧ t.cand = none then
    some { t with cand := some (rs, rt) }
  else
    match t.cand with
    | some (c0, c1) =>
      if op = 0x09#6 then
        if t.addiu.1 = none ∧ rs = c0 ∧ rt = c0 then
          some { t with addiu := (some (simm16Field si), t.addiu.2) }
        else if t.addiu.2 = none ∧ rs = c1 ∧ rt = c1 then
          some { t with addiu := (t.addiu.1, some (simm16Field si)) }
        else some t
      else if op = 0x0F#6 ∧ t.lui = none then
        let hi := uimm16Field si <<< 16
        if rt = c0 then some { t with lui := some hi }
        else if rt = c1 then some { t with lui := some hi, addiu := (t.addiu.2, t.addiu.2) }
        else some t
      else t.sltiu si
    | none => t.sltiu si

/-- The words before the `jr`, at most `fuel` of them -/
def TableScan.scan (exe : Exe) (functionStart : Word) (jrRs : Reg) : Nat → Word → TableScan → TableScan
  | 0, _, t => t
  | fuel + 1, sa, t =>
    if sa < functionStart then t
    else
      match exe.readWord sa with
      | none => t
      | some si =>
        match t.step jrRs si with
        | none => t
        | some t => scan exe functionStart jrRs fuel (sa - 4#32) t

end PsxRecomp
