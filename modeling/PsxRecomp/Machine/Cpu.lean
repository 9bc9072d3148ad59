import Mathlib.Data.BitVec
import Mathlib.Logic.Function.Basic

/-!
# `Machine/Cpu.lean` — instruction fields, `CPUState`, and the runtime services

The state every backend of the recompiler works on (`runtime/include/cpu_state.h`), the field
decoders all of them repeat, and the services the runtime gives to all of them alike: the six
memory accessors of `CPUState`, the GTE command unit, and the two trap entries.

Memory is a type `M` that only those accessors touch. An access is a state transformer and not a
lookup: a read of a device register may change the device, so *which* accesses happen, and in which
order, is part of the state. A claim that two backends leave the same `M` for every `Runtime M`
says that they make the same accesses in the same order (`M` may be the access log itself).

The timing fields of `CPUState` (`muldiv_ts_done`, `read_absorb`, …) belong to the
`PSX_ENABLE_BLOCK_CYCLES` build and are not here.
-/

set_option autoImplicit false

open Function

namespace PsxRecomp

abbrev Word := BitVec 32

/-- Whether an address is in a list, by the loop that `std::find` is. -/
instance decidableMemWord (a : Word) (l : List Word) : Decidable (a ∈ l) :=
  decidable_of_iff (l.elem a = true) List.elem_iff

instance finiteWord : Finite Word := Finite.of_injective BitVec.toFin fun _ _ h => BitVec.eq_of_toFin_eq h

/-- A register number: a five-bit field of an instruction. -/
abbrev Reg := BitVec 5

/-! ## 1. Instruction fields -/

section Fields
variable (insn : Word)

def opField : BitVec 6 := insn.extractLsb' 26 6
def rsField : Reg := insn.extractLsb' 21 5
def rtField : Reg := insn.extractLsb' 16 5
def rdField : Reg := insn.extractLsb' 11 5
def shamtField : BitVec 5 := insn.extractLsb' 6 5
def functField : BitVec 6 := insn.extractLsb' 0 6
def imm16Field : BitVec 16 := insn.extractLsb' 0 16

/-- `(int32_t)(int16_t)imm16` -/
def simm16Field : Word := (imm16Field insn).signExtend 32

/-- `(uint32_t)imm16` -/
def uimm16Field : Word := (imm16Field insn).setWidth 32

def target26 : BitVec 26 := insn.extractLsb' 0 26

/-- The trap code of `SYSCALL` and `BREAK`. -/
def trapCode : Word := (insn >>> 6) &&& 0xFFFFF

def gteCmd : Word := insn &&& 0x1FFFFFF

end Fields

/-- The target of `J` and `JAL` at `pc`. -/
def jumpTarget (pc insn : Word) : Word :=
  ((pc + 4) &&& 0xF0000000) ||| ((target26 insn).setWidth 32 <<< 2)

/-- The target of a conditional branch at `pc`. -/
def branchTarget (pc insn : Word) : Word := pc + 4 + (simm16Field insn <<< 2)

/-! ## 2. State -/

/-- The COP2 registers as `CPUState` stores them. -/
@[ext] structure Gte where
  data : Reg → Word
  ctrl : Reg → Word

@[ext] structure Cpu (M : Type) where
  gpr : Reg → Word
  hi : Word
  lo : Word
  pc : Word
  cop0 : Reg → Word
  gte : Gte
  mem : M

/-- What the runtime provides to generated code and to the interpreters alike. -/
structure Runtime (M : Type) where
  readByte : Word → M → BitVec 8 × M
  readHalf : Word → M → BitVec 16 × M
  readWord : Word → M → Word × M
  writeByte : Word → BitVec 8 → M → M
  writeHalf : Word → BitVec 16 → M → M
  writeWord : Word → Word → M → M
  /-- `gte_execute`; it works on the COP2 registers only. -/
  gteExecute : Word → Gte → Gte
  /-- `psx_syscall`: non-zero when control transfers. -/
  psxSyscall : Word → Cpu M → Word × Cpu M
  psxBreak : Word → Word → Cpu M → Cpu M

namespace Gte

def setData (g : Gte) (r : Reg) (v : Word) : Gte := { g with data := Function.update g.data r v }
def setCtrl (g : Gte) (r : Reg) (v : Word) : Gte := { g with ctrl := Function.update g.ctrl r v }

end Gte

namespace Cpu
variable {M : Type} (c : Cpu M)

def setGpr (r : Reg) (v : Word) : Cpu M := { c with gpr := Function.update c.gpr r v }
def setCop0 (r : Reg) (v : Word) : Cpu M := { c with cop0 := Function.update c.cop0 r v }

/-- `cpu->gpr[r] = v; cpu->gpr[0] = 0;`, how the interpreter ends every register write. -/
def writeBack (r : Reg) (v : Word) : Cpu M := (c.setGpr r v).setGpr 0#5 0#32

section
variable (r q : Reg) (v : Word)

@[simp] theorem setGpr_gpr : (c.setGpr r v).gpr q = if q = r then v else c.gpr q :=
  update_apply _ _ _ _

theorem setGpr_self : c.setGpr r (c.gpr r) = c := by
  simp [setGpr]

end

theorem writeBack_eq {c : Cpu M} (h0 : c.gpr 0#5 = 0#32) (r : Reg) (v : Word) :
    c.writeBack r v = if r = 0#5 then c else c.setGpr r v := by
  by_cases hr : r = 0#5
  · subst hr
    simp only [writeBack, setGpr, update_idem, if_true]
    rw [← h0, update_eq_self]
  · rw [if_neg hr]
    have h : (c.setGpr r v).gpr 0#5 = 0#32 := by
      rw [setGpr_gpr, if_neg (Ne.symm hr), h0]
    simpa only [writeBack, h] using setGpr_self (c.setGpr r v) 0#5

@[simp] theorem writeBack_gpr_zero (r : Reg) (v : Word) : (c.writeBack r v).gpr 0#5 = 0#32 := by
  simp [writeBack]

theorem writeBack_zero {c : Cpu M} (h0 : c.gpr 0#5 = 0#32) (v : Word) : c.writeBack 0#5 v = c := by
  rw [writeBack_eq h0, if_pos rfl]

theorem writeBack_self {c : Cpu M} (h0 : c.gpr 0#5 = 0#32) (r : Reg) :
    c.writeBack r (c.gpr r) = c := by
  rw [writeBack_eq h0, setGpr_self, ite_self]

theorem writeBack_gpr_self {r : Reg} (hr : r ≠ 0#5) (v : Word) : (c.writeBack r v).gpr r = v := by
  simp [writeBack, hr]

theorem writeBack_writeBack (r : Reg) (v w : Word) :
    (c.writeBack r v).writeBack r w = c.writeBack r w := by
  simp only [writeBack, setGpr]
  congr 1
  funext q
  simp only [update_apply]
  split_ifs <;> rfl

theorem writeBack_inj {c : Cpu M} (h0 : c.gpr 0#5 = 0#32) (r : Reg) (x y : Word) :
    c.writeBack r x = c.writeBack r y ↔ r = 0#5 ∨ x = y := by
  rw [writeBack_eq h0, writeBack_eq h0]
  by_cases hr : r = 0#5
  · simp [hr]
  · simp only [hr, if_false, false_or]
    constructor
    · intro h
      simpa using congrArg (fun c => c.gpr r) h
    · rintro rfl
      rfl

theorem setCop0_inj (r : Reg) (x y : Word) : c.setCop0 r x = c.setCop0 r y ↔ x = y := by
  constructor
  · intro h
    simpa [setCop0] using congrArg (fun c => c.cop0 r) h
  · rintro rfl
    rfl

end Cpu

/-! ## A concrete machine -/

def oneWord : Runtime Word where
  readByte _ m := (m.setWidth 8, m)
  readHalf _ m := (m.setWidth 16, m)
  readWord _ m := (m, m)
  writeByte _ _ m := m
  writeHalf _ _ m := m
  writeWord _ v _ := v
  gteExecute _ g := g
  psxSyscall _ c := (0, c)
  psxBreak _ _ c := c

def zeroCpu (m : Word) : Cpu Word where
  gpr _ := 0
  hi := 0
  lo := 0
  pc := 0
  cop0 _ := 0
  gte := ⟨fun _ => 0, fun _ => 0⟩
  mem := m

/-- `$1 = 5` and `$2 = 7`. -/
def fiveSeven : Cpu Word := ((zeroCpu 0).setGpr 1#5 5#32).setGpr 2#5 7#32

end PsxRecomp
