import PsxRecomp.Emit.CodeGen

/-!
# `Emit/CodeGenAgree.lean` — game statements against `exec_one`

What each statement of `Emit/CodeGen.lean` computes, and where that is not what the interpreter does.
-/

set_option autoImplicit false

namespace PsxRecomp.CodeGen

open CLang BitVec Cpu

variable {M : Type}

/-! ## 1. What is compared -/

/-- Equal up to `pc`. -/
structure SameRegs (a b : Cpu M) : Prop where
  gpr : a.gpr = b.gpr
  hi : a.hi = b.hi
  lo : a.lo = b.lo
  cop0 : a.cop0 = b.cop0
  gte : a.gte = b.gte
  mem : a.mem = b.mem

theorem SameRegs.eq {a b : Cpu M} (h : SameRegs a b) (hpc : a.pc = b.pc) : a = b :=
  Cpu.ext h.gpr h.hi h.lo hpc h.cop0 h.gte h.mem

theorem SameRegs.refl (a : Cpu M) : SameRegs a a := ⟨rfl, rfl, rfl, rfl, rfl, rfl⟩

section
variable (R : Runtime M) (d : Dialect)

/-- The statement is defined and leaves the registers and the memory `exec_one` leaves. -/
def Agrees (s : CS) (fetch : Word → Word) (pc : Word) (c : Cpu M) : Prop :=
  ∃ f s' c', run R d s c = some (f, s') ∧ (execOne R fetch pc c).state? = some c' ∧
    SameRegs s'.cpu c'

/-- The same for a word that is neither a transfer nor a trap. -/
def AgreesRegs (s : CS) (instr : Word) (c : Cpu M) : Prop :=
  ∃ f s' c', run R d s c = some (f, s') ∧ execPlain R instr c = .ok c' ∧ SameRegs s'.cpu c'

/-- `exec_one` has a case for the word. -/
def Handled (fetch : Word → Word) (pc : Word) (c : Cpu M) : Prop :=
  (execOne R fetch pc c).state?.isSome

def Cop2Parity (instr : Word) (c : Cpu M) : Prop :=
  let rt := rtField instr
  let rd := rdField instr
  if rsField instr = 0x00#5 then
    if rt = 0#5 then movedData c.gte rd = 0#32 else helperReadData rd ∨ c.gte.DataCanonical rd
  else if rsField instr = 0x02#5 then
    if rt = 0#5 then movedCtrl c.gte rd = 0#32 else helperCtrl rd ∨ c.gte.CtrlCanonical rd
  else if rsField instr = 0x04#5 then
    helperWriteData rd ∨ (c.gte.setData rd (c.gpr rt)).Canonical
  else if rsField instr = 0x06#5 then helperCtrl rd ∨ (c.gte.setCtrl rd (c.gpr rt)).Canonical
  else True

/-- Where `SPECIAL` agrees. -/
def SpecialParity (pc instr : Word) (c : Cpu M) : Prop :=
  match functField instr with
  | 0x0C =>
    SameRegs (R.psxSyscall (trapCode instr) c).2
      (R.psxSyscall (trapCode instr) { c with pc := pc }).2
  | 0x0D => SameRegs c (R.psxBreak (trapCode instr) pc c)
  | 0x1A => ¬ (c.gpr (rsField instr) = 0x80000000#32 ∧ c.gpr (rtField instr) = -1#32)
  | _ => True

/-- Where the statement and `exec_one` agree. -/
def Parity (pc instr : Word) (c : Cpu M) : Prop :=
  let rs := rsField instr
  let rt := rtField instr
  let addr := effAddr instr c
  match opField instr with
  | 0x00 => SpecialParity R pc instr c
  | 0x08 | 0x09 => rs = 0#5 → rt = 0#5 → simm16Field instr = 0#32
  | 0x0F => rt = 0#5 ∨ (d = .iso → uimm16Field instr < 0x8000#32)
  | 0x10 => rs = 0x00#5 → rt = 0#5 → c.cop0 (rdField instr) = 0#32
  | 0x12 => Cop2Parity instr c
  | 0x22 | 0x26 => rt = 0#5 → (R.readWord (addr &&& ~~~3) c.mem).2 = c.mem
  | 0x32 => helperWriteData rt ∨ (c.gte.setData rt (R.readWord addr c.mem).1).Canonical
  | 0x3A =>
    helperReadData rt ∨ c.gte.DataCanonical rt ∨
      SameStore R addr (c.gte.data rt) (c.gte.seenData rt) c.mem
  | _ => True

end

/-! ## 2. Running the statements -/

variable {c' : Cpu M} {f : RtFn} {conv : CE → CE} {x y v : CVal} {e : CE}

section
variable {R : Runtime M} {d : Dialect} {c : Cpu M} {cfg : Config} {instr : Word}

theorem less_eval {a b : CE} (ha : a.eval d (host R) [] c.start = some (x, c.start))
    (hb : b.eval d (host R) [] c.start = some (y, c.start)) :
    (less a b).eval d (host R) [] c.start =
      some (.i32 (flag (CmpOp.lt.apply x y).truthy), c.start) := by
  cases h : (CmpOp.lt.apply x y).truthy <;> simp [less, ha, hb, h, flag]

theorem addrExpr_eval (env : Env) :
    (addrExpr instr).eval d (host R) env c.start = some (.u32 (effAddr instr c), c.start) := by
  by_cases h : simm16Field instr = 0#32 <;> simp [addrExpr, effAddr, h]

theorem shamtLit_count : shiftCount 32 (.i32 ((shamtField instr).setWidth 32)) =
    some (shamtField instr).toNat := by
  have h : ((shamtField instr).setWidth 32).toNat = (shamtField instr).toNat := by
    rw [toNat_setWidth, Nat.mod_eq_of_lt (by omega)]
  rw [shiftCount_int (by omega) (by decide), h]

section
variable (hz : cfg.optimizeZeroReg = true) (h0 : c.gpr 0#5 = 0#32)
include hz h0

theorem run_assign {r : Reg} (he : e.eval d (host R) [] c.start = some (v, c.start)) :
    run R d (assign cfg r e) c = some (.next, (c.writeBack r v.to32).start) := by
  by_cases hr : r = 0#5
  · simp [run, assign, hz, hr, writeBack_eq h0]
  · simp [run, assign, hr, writeBack_eq h0, he]
    rfl

theorem run_translateSll : run R d (translateSll cfg instr) c = some (.next,
      (c.writeBack (rdField instr)
        (c.gpr (rtField instr) <<< (shamtField instr).toNat)).start) := by
  simp only [translateSll]
  split_ifs with hnop hsh
  · rw [hnop.1, writeBack_eq h0]
    rfl
  · rw [run_assign hz h0 (v := .u32 (c.gpr (rtField instr))) (by simp)]
    simp [hsh]
  · rw [run_assign hz h0 (by simp [shamtLit, shamtLit_count]; rfl)]
    rfl

theorem run_moveOr {op : ArithOp}
    (hl : ∀ x : Word, op.unsigned 0#32 x = some x) (hr : ∀ x : Word, op.unsigned x 0#32 = some x)
    {v : Word} (hv : op.unsigned (c.gpr (rsField instr)) (c.gpr (rtField instr)) = some v) :
    run R d (moveOr cfg instr op) c = some (.next, (c.writeBack (rdField instr) v).start) := by
  refine run_assign hz h0 (v := .u32 v) ?_
  split_ifs with ht hs
  · rw [ht, h0, hr] at hv
    cases hv
    simp
  · rw [hs, h0, hl] at hv
    cases hv
    simp
  · simp [hv, -ArithOp.unsigned]

theorem run_translateNor : run R d (translateNor cfg instr) c = some (.next,
      (c.writeBack (rdField instr)
        (~~~(c.gpr (rsField instr) ||| c.gpr (rtField instr)))).start) := by
  refine run_assign hz h0 (v := .u32 (~~~(c.gpr (rsField instr) ||| c.gpr (rtField instr)))) ?_
  split_ifs with ht hs
  · simp [ht, h0]
  · simp [hs, h0]
  · simp

end

theorem run_translateMult : run R d (translateMult instr) c = some (.next, { c with
    lo := ((c.gpr (rsField instr)).signExtend 64
      * (c.gpr (rtField instr)).signExtend 64).setWidth 32
    hi := (((c.gpr (rsField instr)).signExtend 64 * (c.gpr (rtField instr)).signExtend 64)
      >>> 32).setWidth 32 }.start) := by
  have hs : shiftCount 64 (.i32 32#32) = some 32 := by decide
  simp [run, translateMult, cu32, ci32, hs, Words.smulOverflow_signExtend64,
    Words.setWidth_sshiftRight_high]
  rfl

theorem run_translateDivu : run R d (translateDivu instr) c = some (.next, { c with
    hi := (divuHiLo (c.gpr (rsField instr)) (c.gpr (rtField instr))).1
    lo := (divuHiLo (c.gpr (rsField instr)) (c.gpr (rtField instr))).2 }.start) := by
  by_cases hz : c.gpr (rtField instr) = 0#32 <;>
    simp [run, translateDivu, divuHiLo, hz] <;> rfl

theorem run_translateDiv
    (h : ¬ (c.gpr (rsField instr) = 0x80000000#32 ∧ c.gpr (rtField instr) = -1#32)) :
    run R d (translateDiv instr) c = some (.next, { c with
      hi := (divHiLo (c.gpr (rsField instr)) (c.gpr (rtField instr))).1
      lo := (divHiLo (c.gpr (rsField instr)) (c.gpr (rtField instr))).2 }.start) := by
  have hm : BitVec.intMin 32 = 0x80000000#32 := by decide
  have h' : ¬ (c.gpr (rsField instr) = 2147483648#32 ∧ c.gpr (rtField instr) = 4294967295#32) := h
  by_cases hz : c.gpr (rtField instr) = 0#32
  · have hs : (0#32).sle (c.gpr (rsField instr)) = !(c.gpr (rsField instr)).slt 0#32 :=
      sle_eq_not_slt
    cases hn : (c.gpr (rsField instr)).slt 0#32 <;>
      simp [run, translateDiv, divHiLo, hz, cu32, ci32, hs, hn] <;> rfl
  · simp [run, translateDiv, divHiLo, hz, cu32, ci32, hm, h']
    rfl

theorem run_translateDiv_undefined
    (h : c.gpr (rsField instr) = 0x80000000#32 ∧ c.gpr (rtField instr) = -1#32) :
    run R d (translateDiv instr) c = none := by
  have hm : BitVec.intMin 32 = 0x80000000#32 := by decide
  simp [run, translateDiv, cu32, ci32, hm, h]

theorem run_load (hz : cfg.optimizeZeroReg = true) (hc' : c'.gpr 0#5 = 0#32)
    (hread : f.call R [.u32 (effAddr instr c)] c.start = some (x, c'.start))
    (hconv : ∀ e : CE, e.eval d (host R) [] c.start = some (x, c'.start) →
      (conv e).eval d (host R) [] c.start = some (y, c'.start)) :
    run R d (load cfg instr f conv) c =
      some (.next, (c'.writeBack (rtField instr) y.to32).start) := by
  have hr : (CExpr.call1 f (addrExpr instr)).eval d (host R) [] c.start = some (x, c'.start) := by
    simp [addrExpr_eval, hread, -RtFn.call]
  rw [writeBack_eq hc']
  by_cases hrt : rtField instr = 0#5
  · simp [run, load, hz, hrt, hr, -CExpr.eval]
  · simp [run, load, hrt, hconv _ hr, -CExpr.eval]
    rfl

theorem run_storeTo
    (hconv : (conv (cgpr (rtField instr))).eval d (host R) [] c.start = some (x, c.start))
    (hwrite : f.call R [.u32 (effAddr instr c), x] c.start = some (y, c'.start)) :
    run R d (storeTo instr f conv) c = some (.next, c'.start) := by
  rw [cgpr] at hconv
  simp [run, storeTo, addrExpr_eval, hconv, hwrite, -RtFn.call]

theorem run_loadMerge {v : Word} (hr : rtField instr ≠ 0#5)
    (hcall : f.call R [.u32 (effAddr instr c), .u32 (c.gpr (rtField instr))] c.start =
      some (.u32 v, c'.start)) :
    run R d (loadMerge cfg instr f) c = some (.next, (c'.setGpr (rtField instr) v).start) := by
  simp [run, loadMerge, hr, addrExpr_eval, hcall, -RtFn.call]
  rfl

theorem run_loadMerge_zero (hz : cfg.optimizeZeroReg = true) (hr : rtField instr = 0#5) :
    run R d (loadMerge cfg instr f) c = some (.next, c.start) := by
  simp [run, loadMerge, hr, hz]

end

/-! ## 3. Opcode by opcode -/

section
variable {R : Runtime M} {d : Dialect} {c : Cpu M} {cfg : Config} {fetch : Word → Word} {pc : Word}
  {instr : Word}

theorem not_agrees {s : CS} (h : run R d s c = none) : ¬ AgreesRegs R d s instr c := by
  simp [AgreesRegs, h]

theorem specialParity_of_ne (h1 : functField instr ≠ 0x0C#6)
    (h2 : functField instr ≠ 0x0D#6) (h3 : functField instr ≠ 0x1A#6) :
    SpecialParity R pc instr c := by
  unfold SpecialParity
  split <;> first | contradiction | trivial

theorem parity_of_op (h : opField instr ∈ [0x0A#6, 0x0B#6, 0x0C#6, 0x0D#6, 0x0E#6, 0x20#6,
      0x21#6, 0x23#6, 0x24#6, 0x25#6, 0x28#6, 0x29#6, 0x2A#6, 0x2B#6, 0x2E#6]) :
    Parity R d pc instr c := by
  unfold Parity
  split <;> rename_i hop <;> first | trivial | (rw [hop] at h; exact absurd h (by decide))

theorem agreesRegs_iff {s : CS} {f : Flow Word}
    (hrun : run R d s c = some (f, c'.start)) (hpc : c'.pc = c.pc) :
    AgreesRegs R d s instr c ↔ execPlain R instr c = .ok c' := by
  constructor
  · rintro ⟨f', s', c'', hs, hx, hsame⟩
    rw [hrun] at hs
    cases hs
    exact hx.trans (congrArg Except.ok (hsame.eq (hpc.trans (execPlain_pc hx).symm)).symm)
  · intro hx
    exact ⟨f, c'.start, c', hrun, hx, .refl _⟩

theorem store_gpr_agrees_iff {rt : Reg} {w : Word}
    (he : e.eval d (host R) [] c.start = some (v, c.start)) (h0 : c.gpr 0#5 = 0#32)
    (hx : execPlain R instr c = .ok (c.writeBack rt w)) :
    AgreesRegs R d (.store (.gpr rt) e) instr c ↔ if rt = 0#5 then v.to32 = 0#32 else w = v.to32 := by
  have hrun : run R d (.store (.gpr rt) e) c = some (.next, (c.setGpr rt v.to32).start) := by
    simp [run, he]
    rfl
  rw [agreesRegs_iff hrun rfl, hx, writeBack_eq h0, Except.ok.injEq]
  split_ifs with hr
  · constructor
    · intro h
      simpa [hr, h0] using congrArg (fun c => c.gpr rt) h.symm
    · intro h
      rw [h, hr, ← h0, setGpr_self]
  · constructor
    · intro h
      simpa using congrArg (fun c => c.gpr rt) h
    · rintro rfl
      rfl

theorem cop0_agrees_iff (h0 : c.gpr 0#5 = 0#32) (hop : opField instr = 0x10#6)
    (hh : execPlain R instr c = .ok c') :
    AgreesRegs R d (translateCop0 instr) instr c ↔ Parity R d pc instr c := by
  have hx : execPlain R instr c = execCop0 instr c := by simp [execPlain, hop]
  simp only [Parity, hop, translateCop0]
  split_ifs with hmf hmt hrfe
  · rw [store_gpr_agrees_iff rfl h0 (by simp only [hx, execCop0, hmf]; rfl)]
    by_cases hr : rtField instr = 0#5 <;> simp [hr, hmf]
  · refine iff_of_true ((agreesRegs_iff (f := .next) (by rfl) (by rfl)).mpr ?_)
      fun h => absurd h hmf
    simp only [hx, execCop0, hmt]
    rfl
  · have hs : shiftCount 32 (.i32 2#32) = some 2 := by decide
    refine iff_of_true
      ((agreesRegs_iff (f := .next) (by simp [run, hs]; rfl) (by rfl)).mpr ?_)
      fun h => absurd h hmf
    simp only [hx, execCop0, hrfe]
    rfl
  · simp [hx, execCop0, hmf, hmt, hrfe] at hh

theorem cop2_agrees_iff (h0 : c.gpr 0#5 = 0#32) (hop : opField instr = 0x12#6)
    (hh : execPlain R instr c = .ok c') :
    AgreesRegs R d (translateCop2 instr) instr c ↔ Cop2Parity instr c := by
  have hx : execPlain R instr c = execCop2 R instr c := by simp [execPlain, hop]
  simp only [Cop2Parity, translateCop2]
  by_cases hmf : rsField instr = 0x00#5
  · simp only [if_pos hmf]
    rw [store_gpr_agrees_iff (gteDataExpr_eval _ _ _) h0
      (by simp only [hx, execCop2, hmf]; rfl), ← readData_eq_iff]
    rfl
  by_cases hcf : rsField instr = 0x02#5
  · simp only [if_neg hmf, if_pos hcf]
    rw [store_gpr_agrees_iff (gteCtrlExpr_eval _ _ _) h0
      (by simp only [hx, execCop2, hcf]; rfl), ← readCtrl_eq_iff]
    rfl
  by_cases hmt : rsField instr = 0x04#5
  · simp only [if_neg hmf, if_neg hcf, if_pos hmt]
    have hrun := run_gteDataWrite (R := R) (d := d) (r := rdField instr)
      (e := cgpr (rtField instr)) c rfl
    rw [agreesRegs_iff hrun rfl, ← writeData_eq_iff]
    simp [hx, execCop2, hmt]
  by_cases hct : rsField instr = 0x06#5
  · simp only [if_neg hmf, if_neg hcf, if_neg hmt, if_pos hct]
    have hrun := run_gteCtrlWrite (R := R) (d := d) (r := rdField instr)
      (e := cgpr (rtField instr)) c rfl
    rw [agreesRegs_iff hrun rfl, ← writeCtrl_eq_iff]
    simp [hx, execCop2, hct]
  simp only [if_neg hmf, if_neg hcf, if_neg hmt, if_neg hct, iff_true]
  by_cases hcmd : rsField instr &&& 0x10#5 ≠ 0#5
  · rw [if_pos hcmd]
    have hrun : run R d (.expr (.call1 .gteExecute (cint (gteCmd instr)))) c =
        some (.next, { c with gte := R.gteExecute (gteCmd instr) c.gte }.start) := rfl
    rw [agreesRegs_iff hrun rfl]
    simp [hx, execCop2, hmf, hcf, hmt, hct, hcmd]
  · simp [hx, execCop2, hmf, hcf, hmt, hct, hcmd] at hh

theorem lwc2_agrees_iff (hop : opField instr = 0x32#6) :
    AgreesRegs R d (translateLwc2 instr) instr c ↔ Parity R d pc instr c := by
  have hread : CExpr.eval d (host R) (.call1 .psxCycLwc2Read (addrExpr instr)) [] c.start =
      some (.u32 (c.readWord R (effAddr instr c)).1,
        (c.readWord R (effAddr instr c)).2.start) := by
    simp [addrExpr_eval]
    rfl
  have hrun := run_gteDataWrite (r := rtField instr) _ hread
  change run R d (translateLwc2 instr) c = _ at hrun
  simp only [Parity, hop]
  rw [agreesRegs_iff hrun rfl, ← writeData_eq_iff]
  simp [execPlain, hop, readWord]

theorem swc2_agrees_iff (hop : opField instr = 0x3A#6) :
    AgreesRegs R d (translateSwc2 instr) instr c ↔ Parity R d pc instr c := by
  have hrun : run R d (translateSwc2 instr) c = some (.next,
      (c.writeWord R (effAddr instr c) (movedData c.gte (rtField instr))).start) := by
    simp [run, translateSwc2, addrExpr_eval, gteDataExpr_eval]
    rfl
  simp only [Parity, hop]
  rw [agreesRegs_iff hrun rfl, ← sameStore_moved_iff]
  simp [execPlain, hop, writeWord, SameStore, eq_comm]

theorem load_agrees (hz : cfg.optimizeZeroReg = true)
    (hread : f.call R [.u32 (effAddr instr c)] c.start = some (x, c'.start))
    (hconv : ∀ e : CE, e.eval d (host R) [] c.start = some (x, c'.start) →
      (conv e).eval d (host R) [] c.start = some (y, c'.start))
    (hc' : c'.gpr 0#5 = 0#32) (hpc : c'.pc = c.pc)
    (hx : execPlain R instr c = .ok (c'.writeBack (rtField instr) y.to32)) :
    AgreesRegs R d (load cfg instr f conv) instr c :=
  (agreesRegs_iff (run_load hz hc' hread hconv) hpc).mpr hx

section
variable (hz : cfg.optimizeZeroReg = true) (h0 : c.gpr 0#5 = 0#32)
include hz h0

theorem assign_agrees {r : Reg} (he : e.eval d (host R) [] c.start = some (v, c.start))
    (hx : execPlain R instr c = .ok (c.writeBack r v.to32)) :
    AgreesRegs R d (assign cfg r e) instr c :=
  (agreesRegs_iff (run_assign hz h0 he) rfl).mpr hx

theorem loadMerge_agrees_iff {v : Word}
    (hcall : f.call R [.u32 (effAddr instr c), .u32 (c.gpr (rtField instr))] c.start =
      some (.u32 v, c'.start))
    (hx : execPlain R instr c = .ok (c'.writeBack (rtField instr) v))
    (hc' : c' = { c with mem := (R.readWord (effAddr instr c &&& ~~~3) c.mem).2 }) :
    AgreesRegs R d (loadMerge cfg instr f) instr c ↔
      (rtField instr = 0#5 →
        (R.readWord (effAddr instr c &&& ~~~3) c.mem).2 = c.mem) := by
  have h0' : c'.gpr 0#5 = 0#32 := by rw [hc']; exact h0
  by_cases hr : rtField instr = 0#5
  · rw [agreesRegs_iff (run_loadMerge_zero hz hr) rfl, hx, writeBack_eq h0', if_pos hr, hc']
    simp [hr, Cpu.ext_iff]
  · rw [agreesRegs_iff (run_loadMerge hr hcall) (by rw [hc']; rfl), hx,
      writeBack_eq h0', if_neg hr]
    simp [hr]

theorem lui_agrees_iff (hop : opField instr = 0x0F#6) :
    AgreesRegs R d (translateLui cfg instr) instr c ↔
      rtField instr = 0#5 ∨ (d = .iso → uimm16Field instr < 0x8000#32) := by
  have hx : execPlain R instr c =
      .ok (c.writeBack (rtField instr) (uimm16Field instr <<< 16)) := by
    simp [execPlain, hop]
  have h16 : shiftCount 32 (.i32 16#32) = some 16 := by decide
  have hlt : (uimm16Field instr).toNat < 2 ^ 16 := by
    simp only [uimm16Field, toNat_setWidth]
    omega
  have hint : (uimm16Field instr).toInt = (uimm16Field instr).toNat :=
    toInt_eq_toNat_of_lt (by omega)
  by_cases hr : rtField instr = 0#5
  · refine iff_of_true ?_ (.inl hr)
    have hrun : run R d (translateLui cfg instr) c = some (.next, c.start) := by
      simp [run, translateLui, assign, hz, hr]
    rw [agreesRegs_iff hrun rfl, hx, writeBack_eq h0, if_pos hr]
  by_cases hu : d = .iso → uimm16Field instr < 0x8000#32
  · refine iff_of_true
      (assign_agrees hz h0 (v := .i32 (uimm16Field instr <<< 16)) ?_ hx) (.inr hu)
    have hsh : shlSigned d (uimm16Field instr) 16 = some (uimm16Field instr <<< 16) := by
      cases d with
      | wrapv => rfl
      | iso =>
        have hv : (uimm16Field instr).toNat < 0x8000 := hu rfl
        rw [shlSigned, hint, decide_eq_false (by omega)]
        rfl
    simp [h16, hsh]
  · refine iff_of_false (not_agrees ?_) (by simp [hr, hu])
    have hsh : shlSigned d (uimm16Field instr) 16 = none := by
      cases d with
      | wrapv => exact absurd (fun h => by cases h) hu
      | iso =>
        have hv : ¬ (uimm16Field instr).toNat < 0x8000 := fun h => hu fun _ => h
        rw [shlSigned, hint, decide_eq_true (by omega)]
        rfl
    simp [run, translateLui, assign, hr, h16, hsh]

theorem addiu_agrees_iff
    (hx : execPlain R instr c = .ok (c.writeBack (rtField instr)
      (c.gpr (rsField instr) + simm16Field instr))) :
    AgreesRegs R d (translateAddiu cfg instr) instr c ↔
      (rsField instr = 0#5 → rtField instr = 0#5 → simm16Field instr = 0#32) := by
  simp only [translateAddiu]
  by_cases hs : rsField instr = 0#5
  · rw [if_pos hs, store_gpr_agrees_iff rfl h0 hx, hs, h0]
    by_cases hr : rtField instr = 0#5 <;> simp [hr]
  · rw [if_neg hs]
    exact iff_of_true (assign_agrees hz h0 (by simp; rfl) (by exact hx))
      fun h => absurd h hs

variable (hnb : isDelaySlotTransfer instr = false) (htr : isTrap instr = false)
include hnb htr

theorem special_agrees_iff (hop : opField instr = 0x00#6) (hh : execPlain R instr c = .ok c') :
    AgreesRegs R d (translateSpecial cfg instr pc) instr c ↔
      SpecialParity R pc instr c := by
  have hx : execPlain R instr c = execSpecial instr c := by simp [execPlain, hop]
  have hjr : functField instr ≠ 0x08#6 ∧ functField instr ≠ 0x09#6 := by
    simpa [isDelaySlotTransfer, hop] using hnb
  have hsys : functField instr ≠ 0x0C#6 ∧ functField instr ≠ 0x0D#6 := by
    simpa [isTrap, hop] using htr
  unfold translateSpecial
  split <;> rename_i hfn
  case h_7 => exact absurd hfn hjr.1
  case h_8 => exact absurd hfn hjr.2
  case h_9 => exact absurd hfn hsys.1
  case h_10 => exact absurd hfn hsys.2
  case h_17 =>
    -- `DIV`
    simp only [SpecialParity, hfn]
    by_cases hmin : c.gpr (rsField instr) = 0x80000000#32 ∧ c.gpr (rtField instr) = -1#32
    · exact iff_of_false (not_agrees (run_translateDiv_undefined hmin)) (not_not_intro hmin)
    · refine iff_of_true ((agreesRegs_iff (run_translateDiv hmin) rfl).mpr ?_) hmin
      simp [hx, execSpecial, hfn]
  case h_29 =>
    refine iff_of_true ?_ (specialParity_of_ne hsys.1 hsys.2 ‹_›)
    -- the only other word the interpreter accepts is `SYNC`, and it does nothing
    refine (agreesRegs_iff (f := .next) rfl rfl).mpr ?_
    rw [hx] at hh ⊢
    by_cases hsync : functField instr = 0x0F#6
    · simp [execSpecial, hsync]
    · simp only [execSpecial] at hh
      cases hh
  all_goals refine iff_of_true ?_ (specialParity_of_ne hsys.1 hsys.2 (by simp [hfn]))
  all_goals simp only [execSpecial, hfn] at hx
  case h_1 => exact (agreesRegs_iff (run_translateSll hz h0) rfl).mpr hx
  case h_2 | h_3 | h_4 | h_5 | h_6 | h_11 | h_13 | h_21 | h_22 | h_23 | h_25 =>
    exact assign_agrees hz h0
      (by simp [shamtLit, shamtLit_count, shiftReg, shiftCount_and31, cu32, ci32]; rfl)
      (by exact hx)
  case h_12 | h_14 | h_16 => exact (agreesRegs_iff (f := .next) (by rfl) (by rfl)).mpr hx
  case h_15 => exact (agreesRegs_iff run_translateMult rfl).mpr hx
  case h_18 => exact (agreesRegs_iff run_translateDivu rfl).mpr hx
  case h_19 | h_20 | h_24 =>
    exact (agreesRegs_iff (run_moveOr hz h0 (by simp) (by simp) rfl) rfl).mpr hx
  case h_26 => exact (agreesRegs_iff (run_translateNor hz h0) rfl).mpr hx
  case h_27 | h_28 =>
    exact assign_agrees hz h0 (less_eval (by simp [ci32]; rfl) (by simp [ci32]; rfl)) (by simp [hx])

theorem agrees_plain_iff (hh : execPlain R instr c = .ok c') :
    AgreesRegs R d (translateInstruction cfg instr pc) instr c ↔
      Parity R d pc instr c := by
  unfold translateInstruction
  split <;> rename_i hop
  case h_1 =>
    rw [special_agrees_iff hz h0 hnb htr hop hh]
    simp [Parity, hop]
  case h_2 | h_3 =>
    simp only [Parity, hop]
    exact addiu_agrees_iff hz h0 (by simp only [execPlain, hop])
  case h_4 | h_5 =>
    refine iff_of_true (assign_agrees hz h0
      (less_eval (by simp [ci32]; rfl) (by simp [cu32]; rfl)) ?_) (parity_of_op (by simp [hop]))
    simp [execPlain, hop]
  case h_6 | h_8 =>
    refine iff_of_true (assign_agrees hz h0 (by simp; rfl) ?_) (parity_of_op (by simp [hop]))
    simp [execPlain, hop]
  case h_7 =>
    refine iff_of_true ?_ (parity_of_op (by simp [hop]))
    by_cases hs : rsField instr = 0#5
    · exact assign_agrees hz h0 (v := .i32 (uimm16Field instr)) (by simp [hs])
        (by simp [execPlain, hop, hs, h0])
    · exact assign_agrees hz h0 (by simp [hs]; rfl) (by simp [execPlain, hop])
  case h_9 =>
    simp only [Parity, hop]
    exact lui_agrees_iff hz h0 hop
  case h_10 => exact cop0_agrees_iff h0 hop hh
  case h_11 =>
    rw [cop2_agrees_iff h0 hop hh]
    simp [Parity, hop]
  case h_12 | h_13 =>
    refine iff_of_true (load_agrees hz rfl (fun e he => by simp [ci32, he]; rfl) h0 rfl ?_)
      (parity_of_op (by simp [hop]))
    simp only [execPlain, hop]
    rfl
  case h_15 | h_16 | h_17 =>
    refine iff_of_true (load_agrees hz rfl (fun e he => he) h0 rfl ?_)
      (parity_of_op (by simp [hop]))
    simp only [execPlain, hop]
    rfl
  case h_14 | h_18 =>
    simp only [Parity, hop]
    exact loadMerge_agrees_iff hz h0 rfl (by simp only [execPlain, hop]; rfl) rfl
  case h_19 | h_20 | h_21 | h_22 | h_23 =>
    refine iff_of_true ((agreesRegs_iff (run_storeTo rfl rfl) (by rfl)).mpr ?_)
      (parity_of_op (by simp [hop]))
    simp only [execPlain, hop]
    rfl
  case h_24 => exact lwc2_agrees_iff hop
  case h_25 => exact swc2_agrees_iff hop
  case h_26 =>
    simp only [execPlain] at hh
    cases hh

end

theorem trap_agrees_iff (htr : isTrap (fetch pc) = true) :
    Agrees R d (translateInstruction cfg (fetch pc) pc) fetch pc c ↔
      Parity R d pc (fetch pc) c := by
  have hop : opField (fetch pc) = 0x00#6 := by
    simp only [isTrap, Bool.and_eq_true, decide_eq_true_eq] at htr
    exact htr.1
  have hfn : functField (fetch pc) = 0x0C#6 ∨ functField (fetch pc) = 0x0D#6 := by
    simp only [isTrap, Bool.and_eq_true, Bool.or_eq_true, decide_eq_true_eq] at htr
    exact htr.2
  have hnb : isDelaySlotTransfer (fetch pc) = false := by
    rcases hfn with hfn | hfn <;> simp [isDelaySlotTransfer, hop, hfn]
  simp only [Agrees, Parity, hop, translateInstruction]
  rw [execOne_of_not_transfer c hnb]
  rcases hfn with hfn | hfn
  · have hx : (execNonBranch R pc (fetch pc) c).state? =
        some (R.psxSyscall (trapCode (fetch pc)) { c with pc := pc }).2 := by
      simp only [execNonBranch, hop, hfn]
      split_ifs <;> simp_all [Exec.state?]
    rw [hx]
    simp [SpecialParity, translateSpecial, hfn, run]
  · have hx : (execNonBranch R pc (fetch pc) c).state? =
        some (R.psxBreak (trapCode (fetch pc)) pc c) := by
      simp [execNonBranch, hop, hfn, Exec.state?]
    rw [hx]
    simp [SpecialParity, translateSpecial, hfn, run]

end

/-! ## 4. The comparison -/

/-- For every word `exec_one` handles that is no branch or jump: the statement is defined and leaves the
interpreter's registers and memory if and only if `Parity` holds. With `optimize_zero_reg` on, the
differences are

* `ADDI` and `ADDIU` from `$zero` to `$zero` store the immediate in `gpr[0]`;
* `MFC0`, `MFC2` and `CFC2` to `$zero` store the value in `gpr[0]`;
* `LWL` and `LWR` to `$zero` skip the memory access;
* `DIV` has no guard for `INT32_MIN / -1`;
* `LUI` shifts an `int`, undefined in ISO C when bit 15 of the immediate is set;
* raw COP2 moves skip the normalisation of the accessors, as in `Emit/GteMoves.lean`;
* `BREAK` is a comment, and `SYSCALL` does not publish `pc` to the handler. -/
theorem codegen_agrees_iff (R : Runtime M) (d : Dialect) (cfg : Config)
    (hz : cfg.optimizeZeroReg = true) (fetch : Word → Word) (pc : Word) (c : Cpu M)
    (h0 : c.gpr 0#5 = 0#32) (hnb : isDelaySlotTransfer (fetch pc) = false)
    (hh : Handled R fetch pc c) :
    Agrees R d (translateInstruction cfg (fetch pc) pc) fetch pc c ↔
      Parity R d pc (fetch pc) c := by
  cases htr : isTrap (fetch pc) with
  | false =>
    unfold Handled at hh
    rw [execOne_of_not_transfer c hnb, execNonBranch_of_not_trap c htr] at hh
    unfold Agrees
    rw [execOne_of_not_transfer c hnb, execNonBranch_of_not_trap c htr]
    cases hx : execPlain R (fetch pc) c with
    | error reason => simp [hx, Exec.state?] at hh
    | ok c' =>
      rw [← agrees_plain_iff hz h0 hnb htr hx]
      simp [AgreesRegs, hx, Exec.state?]
  | true => exact trap_agrees_iff htr

/-- `addu $3, $1, $2`, where `$3` becomes 12. -/
theorem codegen_agrees_addu :
    Agrees oneWord .iso (translateInstruction {} 0x00221821#32 0) (fun _ => 0x00221821#32) 0 fiveSeven :=
  (codegen_agrees_iff oneWord .iso {} rfl (fun _ => 0x00221821#32) 0 fiveSeven rfl rfl rfl).mpr trivial

/-- `addiu $0, $0, 1` leaves 1 in `gpr[0]`. -/
theorem codegen_addiu_zero_disagrees :
    isDelaySlotTransfer 0x24000001#32 = false ∧
    Handled oneWord (fun _ => 0x24000001#32) 0 (zeroCpu 0) ∧
    ∀ d, ¬ Agrees oneWord d (translateInstruction {} 0x24000001#32 0) (fun _ => 0x24000001#32) 0
      (zeroCpu 0) := by
  refine ⟨rfl, rfl, ?_⟩
  rintro d ⟨f, s', c', hrun, hex, hsame⟩
  cases hrun
  cases hex
  have h := congrFun hsame.gpr 0#5
  revert h
  decide

end PsxRecomp.CodeGen
