import PsxRecomp.Interp.ExecOne
import PsxRecomp.Lib.CLang

/-!
# `Emit/Host.lean` — the C the emitters write, over `CPUState`

`CLang` at the recompiler's own host: the objects are the words of `CPUState`, the functions are
the memory accessors and the runtime entries that generated code calls, and labels are guest
addresses. The three entries of the runtime that stand for an R3000A exception only report and
return; the emitted code returns right after them. `CState.trap` remembers that one was called, so
that "takes no trap exit" can be said.

`psx_cyc_load_*` and `psx_cyc_lwc2_read` are plain reads here: without
`PSX_ENABLE_BLOCK_CYCLES` they only call `psx_read_*`, which is what `cpu->read_*` points to.
-/

set_option autoImplicit false

namespace PsxRecomp

open CLang

/-- A word of `CPUState`. -/
inductive CpuObj where
  | gpr (r : Reg)
  | hi
  | lo
  | pc
  | cop0 (r : Reg)
  | gteData (r : Reg)
  | gteCtrl (r : Reg)
  deriving DecidableEq, Repr

inductive RtFn where
  | readWord
  | writeByte
  | writeHalf
  | writeWord
  | psxCycLoadByte
  | psxCycLoadHalf
  | psxCycLoadWord
  | psxCycLwc2Read
  | psxLwl
  | psxLwr
  | psxSwl
  | psxSwr
  | gteReadData (r : Reg)
  | gteReadCtrl (r : Reg)
  | gteWriteData (r : Reg)
  | gteWriteCtrl (r : Reg)
  | gteExecute
  | psxSyscall
  | psxBreak
  | psxArithOverflow
  | psxUnalignedAccess
  | psxRfeMarkEscape
  | psxRestoreStateEscape
  deriving DecidableEq, Repr

inductive Trap where
  | arithOverflow
  | unalignedAccess (addr pc : Word)
  deriving DecidableEq, Repr

@[ext] structure CState (M : Type) where
  cpu : Cpu M
  trap : Option Trap

def Cpu.start {M : Type} (c : Cpu M) : CState M := ⟨c, none⟩

@[simp] theorem Cpu.start_cpu {M : Type} (c : Cpu M) : c.start.cpu = c := rfl
@[simp] theorem Cpu.start_trap {M : Type} (c : Cpu M) : c.start.trap = none := rfl

abbrev CE := CExpr CpuObj RtFn
abbrev CS := CStmt CpuObj RtFn Word

section
variable {M : Type} (R : Runtime M)

def CpuObj.load (o : CpuObj) (s : CState M) : Word :=
  match o with
  | .gpr r => s.cpu.gpr r
  | .hi => s.cpu.hi
  | .lo => s.cpu.lo
  | .pc => s.cpu.pc
  | .cop0 r => s.cpu.cop0 r
  | .gteData r => s.cpu.gte.data r
  | .gteCtrl r => s.cpu.gte.ctrl r

def CpuObj.store (o : CpuObj) (v : Word) (s : CState M) : CState M :=
  match o with
  | .gpr r => { s with cpu := s.cpu.setGpr r v }
  | .hi => { s with cpu := { s.cpu with hi := v } }
  | .lo => { s with cpu := { s.cpu with lo := v } }
  | .pc => { s with cpu := { s.cpu with pc := v } }
  | .cop0 r => { s with cpu := s.cpu.setCop0 r v }
  | .gteData r => { s with cpu := { s.cpu with gte := s.cpu.gte.setData r v } }
  | .gteCtrl r => { s with cpu := { s.cpu with gte := s.cpu.gte.setCtrl r v } }

/-- What a `void` function returns. -/
def CState.void (s : CState M) : CVal × CState M := (.i32 0, s)

/-- The unaligned-access helpers that every generated game file carries; the tables are the
interpreter's, entry by entry. -/
def psxLwl (c : Cpu M) (addr rtValue : Word) : Word × Cpu M :=
  let (word, c) := c.readWord R (addr &&& ~~~3)
  (lwlMerge addr word rtValue, c)

def psxLwr (c : Cpu M) (addr rtValue : Word) : Word × Cpu M :=
  let (word, c) := c.readWord R (addr &&& ~~~3)
  (lwrMerge addr word rtValue, c)

def psxSwl (c : Cpu M) (addr rtValue : Word) : Cpu M := interpStoreMerge R swlMerge c addr rtValue
def psxSwr (c : Cpu M) (addr rtValue : Word) : Cpu M := interpStoreMerge R swrMerge c addr rtValue

/-- Calls; arguments are converted to the parameter types. -/
def RtFn.call (f : RtFn) (args : List CVal) (s : CState M) : Option (CVal × CState M) :=
  match f, args with
  | .readWord, [a] | .psxCycLoadWord, [a] | .psxCycLwc2Read, [a] =>
    let (v, c) := s.cpu.readWord R a.to32
    some (.u32 v, { s with cpu := c })
  | .psxCycLoadHalf, [a] =>
    let (v, c) := s.cpu.readHalf R a.to32
    some (.u16 v, { s with cpu := c })
  | .psxCycLoadByte, [a] =>
    let (v, c) := s.cpu.readByte R a.to32
    some (.u8 v, { s with cpu := c })
  | .writeByte, [a, v] => some { s with cpu := s.cpu.writeByte R a.to32 v.to8 }.void
  | .writeHalf, [a, v] => some { s with cpu := s.cpu.writeHalf R a.to32 v.to16 }.void
  | .writeWord, [a, v] => some { s with cpu := s.cpu.writeWord R a.to32 v.to32 }.void
  | .psxLwl, [a, v] =>
    let (v, c) := PsxRecomp.psxLwl R s.cpu a.to32 v.to32
    some (.u32 v, { s with cpu := c })
  | .psxLwr, [a, v] =>
    let (v, c) := PsxRecomp.psxLwr R s.cpu a.to32 v.to32
    some (.u32 v, { s with cpu := c })
  | .psxSwl, [a, v] => some { s with cpu := PsxRecomp.psxSwl R s.cpu a.to32 v.to32 }.void
  | .psxSwr, [a, v] => some { s with cpu := PsxRecomp.psxSwr R s.cpu a.to32 v.to32 }.void
  | .gteReadData r, [] => some (.u32 (PsxRecomp.gteReadData s.cpu.gte r), s)
  | .gteReadCtrl r, [] => some (.u32 (PsxRecomp.gteReadCtrl s.cpu.gte r), s)
  | .gteWriteData r, [v] =>
    some { s with cpu := { s.cpu with gte := PsxRecomp.gteWriteData s.cpu.gte r v.to32 } }.void
  | .gteWriteCtrl r, [v] =>
    some { s with cpu := { s.cpu with gte := PsxRecomp.gteWriteCtrl s.cpu.gte r v.to32 } }.void
  | .gteExecute, [cmd] =>
    some { s with cpu := { s.cpu with gte := R.gteExecute cmd.to32 s.cpu.gte } }.void
  | .psxSyscall, [n] =>
    let (v, c) := R.psxSyscall n.to32 s.cpu
    some (.i32 v, { s with cpu := c })
  | .psxBreak, [code, pc] => some { s with cpu := R.psxBreak code.to32 pc.to32 s.cpu }.void
  | .psxArithOverflow, [] => some { s with trap := some .arithOverflow }.void
  | .psxUnalignedAccess, [a, pc] =>
    some { s with trap := some (.unalignedAccess a.to32 pc.to32) }.void
  | .psxRfeMarkEscape, [] =>
    -- arms a host-side escape flag; no word of `CPUState` changes
    some s.void
  | .psxRestoreStateEscape, [] =>
    -- leaves the emitted function early inside an exception; no word of `CPUState` changes
    some s.void
  | _, _ => none

/-- `CPUState` and the runtime as a host. -/
def host : Host CpuObj RtFn (CState M) where
  load := CpuObj.load
  store := CpuObj.store
  call := RtFn.call R

@[simp] theorem host_load (o : CpuObj) (s : CState M) : (host R).load o s = o.load s := rfl
@[simp] theorem host_store (o : CpuObj) (v : Word) (s : CState M) :
    (host R).store o v s = o.store v s := rfl
@[simp] theorem host_call (f : RtFn) (args : List CVal) (s : CState M) :
    (host R).call f args s = f.call R args s := rfl

attribute [simp] CpuObj.load CpuObj.store RtFn.call

def run (d : Dialect) (s : CS) (c : Cpu M) : Option (Flow Word × CState M) :=
  (s.exec d (host R) [] c.start).map fun (f, _, s) => (f, s)

end

/-! ## Agreement with the interpreter -/

section
variable {M : Type} (R : Runtime M) (d : Dialect)

/-- The emitted fragment is defined and leaves the state `exec_one` leaves. -/
def Agrees (s : CS) (fetch : Word → Word) (pc : Word) (c : Cpu M) : Prop :=
  ∃ f s', run R d s c = some (f, s') ∧ execOne R fetch pc c = .next s'.cpu

/-- The emitted fragment does not leave through an exception entry. -/
def NoTrap (s : CS) (c : Cpu M) : Prop := ∀ f s', run R d s c = some (f, s') → s'.trap = none

/-- Storing `x` and storing `y` leave the same memory. -/
def SameStore (addr x y : Word) (m : M) : Prop := R.writeWord addr x m = R.writeWord addr y m

/-- `Agrees` for the words `exec_one` hands to `execPlain`. -/
def AgreesPlain (s : CS) (raw : Word) (c : Cpu M) : Prop :=
  ∃ f s', run R d s c = some (f, s') ∧ execPlain R raw c = .ok s'.cpu

variable {R d} {c : Cpu M} {raw : Word}

theorem agreesPlain_iff {s : CS} {f : Flow Word} {s' : CState M} (h : run R d s c = some (f, s')) :
    AgreesPlain R d s raw c ↔ execPlain R raw c = .ok s'.cpu := by
  simp [AgreesPlain, h]

theorem not_agreesPlain {s : CS} (h : run R d s c = none) : ¬ AgreesPlain R d s raw c := by
  simp [AgreesPlain, h]

end

/-! ## Writing C -/

def cgpr (r : Reg) : CE := .obj (.gpr r)

/-- An `int` literal. -/
def cint (v : Word) : CE := .lit (.i32 v)

/-- An `unsigned` literal. -/
def cuint (v : Word) : CE := .lit (.u32 v)

/-- `(int32_t)e` and `(uint32_t)e` -/
def ci32 (e : CE) : CE := .cast .i32 e
def cu32 (e : CE) : CE := .cast .u32 e

attribute [simp] cgpr cint cuint

end PsxRecomp
