import PsxRecomp.Interp.ExecOne
import Mathlib.Data.List.Chain

/-!
# `Interp/Oracle.lean` — the oracle interpreter

`runtime/src/psx_interpreter.c`, the interpreter the oracle build runs in place of generated code. A
transfer calls `exec_one` again for its delay slot and sets `cpu->pc` when that has returned; a load
goes to a side register (`loadReg`, `loadVal`) that the next `exec_one` empties before it reads its
operands. `execOne` counts how deep these calls go: a delay slot may itself be a transfer, and so on.
-/

set_option autoImplicit false

namespace PsxRecomp.Oracle

open Option

variable {M : Type}

/-! ## 1. The interpreter -/

/-- `CPUState` with `s_load_reg`, `s_load_val` and `s_halted` -/
structure State (M : Type) where
  cpu : Cpu M
  loadReg : Reg
  loadVal : Word
  halted : Bool

def setReg (c : Cpu M) (r : Reg) (v : Word) : Cpu M := if r ≠ 0#5 then c.setGpr r v else c

def applyLoadDelay (s : State M) : State M :=
  if s.loadReg ≠ 0#5 then { s with cpu := s.cpu.setGpr s.loadReg s.loadVal, loadReg := 0#5 } else s

def setLoadDelay (s : State M) (reg : Reg) (val : Word) : State M :=
  { s with loadReg := reg, loadVal := val }

def raiseException (c : Cpu M) (exccode : Word) (inDelay : Bool) : Cpu M :=
  let sr := c.cop0 12
  let c := c.setCop0 12 ((sr &&& ~~~0x3F#32) ||| ((sr &&& 0x0F) <<< 2))
  let c := c.setCop0 13 ((c.cop0 13 &&& ~~~0x7C#32) ||| (exccode <<< 2))
  let c := c.setCop0 13 (if inDelay then c.cop0 13 ||| 0x80000000 else c.cop0 13 &&& ~~~0x80000000#32)
  let c := c.setCop0 14 (if inDelay then c.pc - 4 else c.pc)
  { c with pc := if sr &&& 0x00400000 ≠ 0#32 then 0xBFC00180 else 0x80000080 }

/-- `RFE` on the status register -/
def rfe (sr : Word) : Word := (sr &&& 0xFFFFFFC0#32) ||| ((sr >>> 2) &&& 0x0F#32)

/-- How a case of the switch ends: `break`, `return`, or with the delay slot and then `cpu->pc = target` -/
inductive Outcome (M : Type) where
  | done (s : State M)
  | trap (s : State M)
  | slot (target : Word) (s : State M)

section
variable (R : Runtime M) (pc insn : Word) (s : State M)

def execSpecial : Outcome M :=
  let c := s.cpu
  let rs := c.gpr (rsField insn)
  let rt := c.gpr (rtField insn)
  let rd := rdField insn
  let set (v : Word) : Outcome M := .done { s with cpu := setReg c rd v }
  let hiLo (r : Word × Word) : Outcome M := .done { s with cpu := { c with hi := r.1, lo := r.2 } }
  match functField insn with
  | 0x00 => set (rt <<< (shamtField insn).toNat)
  | 0x02 => set (rt >>> (shamtField insn).toNat)
  | 0x03 => set (rt.sshiftRight (shamtField insn).toNat)
  | 0x04 => set (rt <<< (rs &&& 31).toNat)
  | 0x06 => set (rt >>> (rs &&& 31).toNat)
  | 0x07 => set (rt.sshiftRight (rs &&& 31).toNat)
  | 0x08 => .slot rs s
  | 0x09 => .slot rs { s with cpu := setReg c rd (pc + 8) }
  | 0x0C => .trap { s with cpu := raiseException c 8 false }
  | 0x0D => .trap { s with cpu := raiseException c 9 false }
  | 0x10 => set c.hi
  | 0x11 => .done { s with cpu := { c with hi := rs } }
  | 0x12 => set c.lo
  | 0x13 => .done { s with cpu := { c with lo := rs } }
  | 0x18 =>
    let r := rs.signExtend 64 * rt.signExtend 64
    hiLo ((r.sshiftRight 32).setWidth 32, r.setWidth 32)
  | 0x19 =>
    let r := rs.setWidth 64 * rt.setWidth 64
    hiLo ((r >>> 32).setWidth 32, r.setWidth 32)
  | 0x1A => hiLo (divHiLo rs rt)
  | 0x1B => hiLo (divuHiLo rs rt)
  | 0x20 =>
    if rs.saddOverflow rt then .trap { s with cpu := raiseException c 12 false } else set (rs + rt)
  | 0x21 => set (rs + rt)
  | 0x22 =>
    if rs.ssubOverflow rt then .trap { s with cpu := raiseException c 12 false } else set (rs - rt)
  | 0x23 => set (rs - rt)
  | 0x24 => set (rs &&& rt)
  | 0x25 => set (rs ||| rt)
  | 0x26 => set (rs ^^^ rt)
  | 0x27 => set (~~~(rs ||| rt))
  | 0x2A => set (flag (rs.slt rt))
  | 0x2B => set (flag (rs.ult rt))
  | _ => .done s

def execCop0 : State M :=
  let c := s.cpu
  let copOp := rsField insn
  if copOp = 0x00#5 then setLoadDelay s (rtField insn) (c.cop0 (rdField insn))
  else if copOp = 0x04#5 then { s with cpu := c.setCop0 (rdField insn) (c.gpr (rtField insn)) }
  else if copOp = 0x10#5 ∧ functField insn = 0x10#6 then { s with cpu := c.setCop0 12 (rfe (c.cop0 12)) }
  else s

def execCop2 : State M :=
  let c := s.cpu
  let copOp := rsField insn
  let rt := rtField insn
  let rd := rdField insn
  if copOp = 0x00#5 then setLoadDelay s rt (gteReadData c.gte rd)
  else if copOp = 0x02#5 then setLoadDelay s rt (gteReadCtrl c.gte rd)
  else if copOp = 0x04#5 then { s with cpu := { c with gte := gteWriteData c.gte rd (c.gpr rt) } }
  else if copOp = 0x06#5 then { s with cpu := { c with gte := gteWriteCtrl c.gte rd (c.gpr rt) } }
  else if copOp &&& 0x10#5 ≠ 0#5 then { s with cpu := { c with gte := R.gteExecute (gteCmd insn) c.gte } }
  else s

/-- The switch of `exec_one`, entered with the pending load applied -/
def operate : Outcome M :=
  let c := s.cpu
  let rs := c.gpr (rsField insn)
  let rtVal := c.gpr (rtField insn)
  let rt := rtField insn
  let addr := effAddr insn c
  let set (v : Word) : Outcome M := .done { s with cpu := setReg c rt v }
  let load (c : Cpu M) (v : Word) : Outcome M := .done (setLoadDelay { s with cpu := c } rt v)
  let put (c : Cpu M) : Outcome M := .done { s with cpu := c }
  let branch (cond : Bool) (c : Cpu M) : Outcome M :=
    if cond then .slot (branchTarget pc insn) { s with cpu := c } else put c
  match opField insn with
  | 0x00 => execSpecial pc insn s
  | 0x01 =>
    branch (if rt.getLsbD 0 then (0#32).sle rs else rs.slt 0#32)
      (if rt.getLsbD 4 then setReg c 31 (pc + 8) else c)
  | 0x02 => .slot (jumpTarget pc insn) s
  | 0x03 => .slot (jumpTarget pc insn) { s with cpu := setReg c 31 (pc + 8) }
  | 0x04 => branch (rs = rtVal) c
  | 0x05 => branch (rs ≠ rtVal) c
  | 0x06 => branch (rs.sle 0#32) c
  | 0x07 => branch ((0#32).slt rs) c
  | 0x08 =>
    if rs.saddOverflow (simm16Field insn) then .trap { s with cpu := raiseException c 12 false }
    else set (rs + simm16Field insn)
  | 0x09 => set (rs + simm16Field insn)
  | 0x0A => set (flag (rs.slt (simm16Field insn)))
  | 0x0B => set (flag (rs.ult (simm16Field insn)))
  | 0x0C => set (rs &&& uimm16Field insn)
  | 0x0D => set (rs ||| uimm16Field insn)
  | 0x0E => set (rs ^^^ uimm16Field insn)
  | 0x0F => set (uimm16Field insn <<< 16)
  | 0x10 => .done (execCop0 insn s)
  | 0x12 => .done (execCop2 R insn s)
  | 0x20 => let (v, c) := c.readByte R addr; load c (v.signExtend 32)
  | 0x21 => let (v, c) := c.readHalf R addr; load c (v.signExtend 32)
  | 0x22 =>
    let (word, c) := c.readWord R (addr &&& ~~~3)
    put (setReg c rt (lwlMerge addr word (c.gpr rt)))
  | 0x23 => let (v, c) := c.readWord R addr; load c v
  | 0x24 => let (v, c) := c.readByte R addr; load c (v.setWidth 32)
  | 0x25 => let (v, c) := c.readHalf R addr; load c (v.setWidth 32)
  | 0x26 =>
    let (word, c) := c.readWord R (addr &&& ~~~3)
    put (setReg c rt (lwrMerge addr word (c.gpr rt)))
  | 0x28 => put (c.writeByte R addr (rtVal.setWidth 8))
  | 0x29 => put (c.writeHalf R addr (rtVal.setWidth 16))
  | 0x2A => put (interpStoreMerge R swlMerge c addr rtVal)
  | 0x2B => put (c.writeWord R addr rtVal)
  | 0x2E => put (interpStoreMerge R swrMerge c addr rtVal)
  | 0x32 => let (v, c) := c.readWord R addr; put { c with gte := gteWriteData c.gte rt v }
  | 0x3A => put (c.writeWord R addr (gteReadData c.gte rt))
  | _ => .done s

end

theorem applyLoadDelay_loadReg (s : State M) : (applyLoadDelay s).loadReg = 0#5 := by
  unfold applyLoadDelay
  split_ifs with h
  · rfl
  · exact not_not.mp h

/-- An instruction that was fetched, and the state the switch is entered with -/
structure Entry (M : Type) where
  pc : Word
  insn : Word
  state : State M
  clear : state.loadReg = 0#5

section
variable (R : Runtime M)

/-- The fetch: `cpu->pc` is advanced and the pending load applied. -/
def enter (s : State M) : Entry M where
  pc := s.cpu.pc
  insn := (s.cpu.readWord R s.cpu.pc).1
  state := applyLoadDelay { s with cpu := { (s.cpu.readWord R s.cpu.pc).2 with pc := s.cpu.pc + 4 } }
  clear := applyLoadDelay_loadReg _

def Entry.outcome (e : Entry M) : Outcome M := operate R e.pc e.insn e.state

/-- The end of `exec_one`: `cpu->gpr[0] = 0` -/
def finish (s : State M) : State M := { s with cpu := s.cpu.setGpr 0#5 0#32 }

def setPc (s : State M) (target : Word) : State M := { s with cpu := { s.cpu with pc := target } }

/-- `exec_one`; `none` if the calls go deeper than `depth`. -/
def execOne : Nat → State M → Option (State M)
  | 0, _ => none
  | depth + 1, s =>
    if s.cpu.pc = 0#32 then some { s with halted := true }
    else
      match (enter R s).outcome R with
      | .done t => some (finish t)
      | .trap t => some t
      | .slot target t => (execOne depth t).map (setPc · target)

end

/-! ## 2. Exceptions -/

/-- The exception an instruction raises, if it raises one -/
def exccode? (insn : Word) (c : Cpu M) : Option Word :=
  let rs := c.gpr (rsField insn)
  let rt := c.gpr (rtField insn)
  match opField insn with
  | 0x00 =>
    match functField insn with
    | 0x0C => some 8
    | 0x0D => some 9
    | 0x20 => if rs.saddOverflow rt then some 12 else none
    | 0x22 => if rs.ssubOverflow rt then some 12 else none
    | _ => none
  | 0x08 => if rs.saddOverflow (simm16Field insn) then some 12 else none
  | _ => none

section
variable (R : Runtime M)

theorem operate_of_exccode {pc insn : Word} {s : State M} {code : Word}
    (h : exccode? insn s.cpu = some code) :
    operate R pc insn s = .trap { s with cpu := raiseException s.cpu code false } := by
  unfold exccode? at h
  dsimp only at h
  split at h
  · next hop =>
    simp only [operate, hop, execSpecial]
    split at h
    all_goals simp_all
  · next hop =>
    simp only [operate, hop]
    split_ifs at h ⊢
    cases h
    rfl
  · cases h

/-- The raising instruction of a call of `exec_one`, and whether it is in a delay slot -/
def raising : Nat → Bool → State M → Option (Entry M × Bool)
  | 0, _, _ => none
  | depth + 1, inSlot, s =>
    if s.cpu.pc = 0#32 then none
    else
      let e := enter R s
      if (exccode? e.insn e.state.cpu).isSome then some (e, inSlot)
      else
        match e.outcome R with
        | .slot _ t => raising depth true t
        | _ => none

/-- What the call leaves is what an R3000A leaves: the next instruction is at the vector, the program
counter and the delay-slot bit name the instruction, no register has changed, and `RFE` restores the four
low bits of the status, with the two above them as it found them. -/
structure Precise (e : Entry M) (inSlot : Bool) (s : State M) : Prop where
  pc : s.cpu.pc = if e.state.cpu.cop0 12 &&& 0x00400000 ≠ 0#32 then 0xBFC00180 else 0x80000080
  epc : s.cpu.cop0 14 = if inSlot then e.pc - 4 else e.pc
  branchDelay : (s.cpu.cop0 13).getLsbD 31 = inSlot
  gpr : s.cpu.gpr = e.state.cpu.gpr
  status : rfe (s.cpu.cop0 12) = (s.cpu.cop0 12 &&& ~~~0x0F#32) ||| (e.state.cpu.cop0 12 &&& 0x0F#32)

theorem raiseException_epc (c : Cpu M) (code : Word) : (raiseException c code false).cop0 14 = c.pc := by
  simp [raiseException, Cpu.setCop0]

theorem enter_pc (s : State M) : (enter R s).state.cpu.pc = (enter R s).pc + 4 := by
  unfold enter applyLoadDelay
  split_ifs <;> rfl

theorem raising_epc {depth : Nat} {inSlot : Bool} {s : State M} {e : Entry M × Bool}
    (h : raising R depth inSlot s = some e) :
    ∃ s', execOne R depth s = some s' ∧ s'.cpu.cop0 14 = e.1.pc + 4 := by
  induction depth generalizing inSlot s with
  | zero => cases h
  | succ depth ih =>
    simp only [raising] at h
    split_ifs at h with hpc hcode
    · obtain ⟨code, hcode⟩ := Option.isSome_iff_exists.mp hcode
      cases h
      have hout : (enter R s).outcome R = _ := operate_of_exccode R hcode
      refine ⟨{ (enter R s).state with cpu := raiseException (enter R s).state.cpu code false }, ?_,
        (raiseException_epc ..).trans (enter_pc R s)⟩
      simp [execOne, if_neg hpc, hout]
    · split at h
      · next target t hslot =>
        obtain ⟨s', hs', hepc⟩ := ih h
        refine ⟨setPc s' target, ?_, hepc⟩
        simp [execOne, if_neg hpc, hslot, hs', map_some]
      · cases h

/-- **Exceptions are precise** in a call of `exec_one` if and only if it raises none: `raise_exception`
finds `cpu->pc` already past the instruction, and the caller of a delay slot then overwrites the vector. -/
theorem exceptions_precise_iff (depth : Nat) (s : State M) :
    (∀ e inSlot, raising R depth false s = some (e, inSlot) →
      ∃ s', execOne R depth s = some s' ∧ Precise e inSlot s') ↔ raising R depth false s = none := by
  constructor
  · intro h
    refine Option.eq_none_iff_forall_ne_some.mpr fun ⟨e, inSlot⟩ he => ?_
    obtain ⟨s', hs', hprecise⟩ := h e inSlot he
    obtain ⟨t, ht, hepc⟩ := raising_epc R he
    obtain rfl : s' = t := some.inj (hs'.symm.trans ht)
    have hsaved := hprecise.epc.symm.trans hepc
    cases inSlot with
    | true => exact absurd (add_left_cancel (sub_eq_add_neg e.pc 4 ▸ hsaved)) (by decide)
    | false => exact absurd (left_eq_add.mp hsaved) (by decide)
  · intro h e inSlot he
    cases h.symm.trans he

end

/-! ## 3. The load delay -/

def isLoad (insn : Word) : Bool :=
  match opField insn with
  | 0x10 => rsField insn = 0x00#5
  | 0x12 => rsField insn = 0x00#5 || rsField insn = 0x02#5
  | 0x20 | 0x21 | 0x23 | 0x24 | 0x25 => true
  | _ => false

/-- The registers an instruction computes with -/
def sources (insn : Word) : List Reg :=
  let rs := rsField insn
  let rt := rtField insn
  match opField insn with
  | 0x00 =>
    match functField insn with
    | 0x00 | 0x02 | 0x03 => [rt]
    | 0x08 | 0x09 | 0x11 | 0x13 => [rs]
    | 0x04 | 0x06 | 0x07 | 0x18 | 0x19 | 0x1A | 0x1B | 0x20 | 0x21 | 0x22 | 0x23 | 0x24 | 0x25 | 0x26
    | 0x27 | 0x2A | 0x2B => [rs, rt]
    | _ => []
  | 0x01 | 0x06 | 0x07 | 0x08 | 0x09 | 0x0A | 0x0B | 0x0C | 0x0D | 0x0E | 0x20 | 0x21 | 0x23 | 0x24 | 0x25
  | 0x32 | 0x3A => [rs]
  | 0x04 | 0x05 | 0x22 | 0x26 | 0x28 | 0x29 | 0x2A | 0x2B | 0x2E => [rs, rt]
  | 0x10 => if rs = 0x04#5 then [rt] else []
  | 0x12 => if rs = 0x04#5 ∨ rs = 0x06#5 then [rt] else []
  | _ => []

/-- The register an instruction writes or loads -/
def dest (insn : Word) : Option Reg :=
  match opField insn with
  | 0x00 =>
    match functField insn with
    | 0x00 | 0x02 | 0x03 | 0x04 | 0x06 | 0x07 | 0x09 | 0x10 | 0x12 | 0x20 | 0x21 | 0x22 | 0x23 | 0x24
    | 0x25 | 0x26 | 0x27 | 0x2A | 0x2B => some (rdField insn)
    | _ => none
  | 0x01 => if (rtField insn).getLsbD 4 then some 31 else none
  | 0x03 => some 31
  | 0x08 | 0x09 | 0x0A | 0x0B | 0x0C | 0x0D | 0x0E | 0x0F | 0x20 | 0x21 | 0x22 | 0x23 | 0x24 | 0x25
  | 0x26 => some (rtField insn)
  | 0x10 | 0x12 => if isLoad insn then some (rtField insn) else none
  | _ => none

def Outcome.state : Outcome M → State M
  | .done s | .trap s | .slot _ s => s

section
variable (R : Runtime M)

/-- A register, the pending load counted -/
def State.reg (s : State M) (q : Reg) : Word := if s.loadReg = q then s.loadVal else s.cpu.gpr q

def Entry.left (e : Entry M) (q : Reg) : Word := (e.outcome R).state.reg q

/-- The instructions of a call of `exec_one`, in order -/
def executed : Nat → State M → List (Entry M)
  | 0, _ => []
  | depth + 1, s =>
    if s.cpu.pc = 0#32 then []
    else
      enter R s ::
        match (enter R s).outcome R with
        | .slot _ t => executed depth t
        | _ => []

/-- `interp_check_interrupts`, when the devices have been ticked -/
def checkInterrupts (pending : Bool) (c : Cpu M) : Cpu M :=
  let sr := c.cop0 12
  if pending ∧ sr.getLsbD 0 ∧ sr.getLsbD 10 then
    let c := c.setCop0 13 ((c.cop0 13 &&& ~~~0x7C#32) ||| 0x400#32)
    let c := c.setCop0 12 ((sr &&& ~~~0x3F#32) ||| ((sr &&& 0x0F) <<< 2))
    let c := c.setCop0 14 c.pc
    { c with pc := if sr &&& 0x00400000 ≠ 0#32 then 0xBFC00180 else 0x80000080 }
  else c

inductive Event (M : Type) where
  | call (depth : Nat)
  /-- The devices have been ticked. -/
  | check (m : M) (pending : Bool)

/-- The instructions of a run of `interp_step`, which checks for interrupts after every sixteenth call -/
def trace : List (Event M) → State M → List (Entry M)
  | [], _ => []
  | .call depth :: es, s =>
    match execOne R depth s with
    | some t => executed R depth s ++ trace es t
    | none => []
  | .check m pending :: es, s =>
    trace es { s with cpu := checkInterrupts pending { s.cpu with mem := m } }

variable {R}

theorem setReg_gpr {c : Cpu M} {r q : Reg} (h : some r ≠ some q) (v : Word) :
    (setReg c r v).gpr q = c.gpr q := by
  unfold setReg
  split_ifs
  · rw [Cpu.setGpr_gpr, if_neg fun hq => h (congrArg some hq.symm)]
  · rfl

theorem execSpecial_keeps (pc : Word) {insn : Word} (s : State M) {q : Reg} (hop : opField insn = 0x00#6)
    (hd : dest insn ≠ some q) :
    (execSpecial pc insn s).state.loadReg = s.loadReg ∧
      (execSpecial pc insn s).state.cpu.gpr q = s.cpu.gpr q := by
  simp only [dest, hop] at hd
  unfold execSpecial
  dsimp only
  split <;> rename_i hf <;> simp only [hf] at hd <;> try split_ifs
  all_goals simp only [Outcome.state]
  all_goals first | exact ⟨trivial, trivial⟩ | exact ⟨trivial, setReg_gpr hd _⟩ | exact ⟨trivial, rfl⟩

theorem operate_keeps {e : Entry M} {q : Reg} (hq : q ≠ 0#5) (hd : dest e.insn ≠ some q) :
    (e.outcome R).state.loadReg ≠ q ∧ (e.outcome R).state.cpu.gpr q = e.state.cpu.gpr q := by
  obtain ⟨pc, insn, s, h0⟩ := e
  have h0q : s.loadReg ≠ q := h0 ▸ hq.symm
  have hload (h : some (rtField insn) ≠ some q) : rtField insn ≠ q := fun hc => h (congrArg some hc)
  unfold Entry.outcome operate
  dsimp only at hd ⊢
  split
  case h_1 hop =>
    obtain ⟨hreg, hgpr⟩ := execSpecial_keeps pc s hop hd
    exact ⟨hreg ▸ h0q, hgpr⟩
  all_goals rename_i hop
  all_goals simp only [dest, isLoad, hop] at hd
  case h_2 =>
    have hlink : (if (rtField insn).getLsbD 4 then setReg s.cpu 31 (pc + 8) else s.cpu).gpr q =
        s.cpu.gpr q := by
      split_ifs at hd ⊢
      · exact setReg_gpr hd _
      · rfl
    generalize (if (rtField insn).getLsbD 0 then _ else _) = cond
    cases cond <;> exact ⟨h0q, hlink⟩
  case h_17 =>
    simp only [Outcome.state, execCop0]
    simp only [decide_eq_true_eq] at hd
    split_ifs at hd ⊢ <;> first | exact ⟨h0q, rfl⟩ | exact ⟨hload hd, rfl⟩
  case h_18 =>
    simp only [Outcome.state, execCop2]
    split_ifs at hd ⊢ <;> first | exact ⟨h0q, rfl⟩ | exact ⟨hload hd, rfl⟩ | simp_all
  all_goals try split_ifs
  all_goals first | exact ⟨h0q, rfl⟩ | exact ⟨h0q, setReg_gpr hd _⟩ | exact ⟨hload hd, rfl⟩

theorem enter_reg (s : State M) {q : Reg} (hq : q ≠ 0#5) : (enter R s).state.cpu.gpr q = s.reg q := by
  unfold enter applyLoadDelay State.reg
  dsimp only
  split_ifs with hreg heq heq
  · rw [heq]
    simp
  · rw [Cpu.setGpr_gpr, if_neg (Ne.symm heq)]
    rfl
  · exact absurd (heq ▸ hreg) (not_not.mpr hq)
  · rfl

/-- The next instruction finds the registers as this one leaves them. -/
def Follows (R : Runtime M) (e e' : Entry M) : Prop := ∀ q ≠ 0#5, e'.state.cpu.gpr q = e.left R q

theorem executed_spec {depth : Nat} {s s' : State M} (h : execOne R depth s = some s') :
    (executed R depth s).IsChain (Follows R) ∧
      (∀ e ∈ (executed R depth s).head?, ∀ q ≠ 0#5, e.state.cpu.gpr q = s.reg q) ∧
      ∀ q ≠ 0#5, s'.reg q = ((executed R depth s).getLast?.elim s.reg (Entry.left R)) q := by
  induction depth generalizing s s' with
  | zero => cases h
  | succ depth ih =>
    unfold execOne at h
    unfold executed
    split_ifs at h ⊢ with hpc
    · cases h
      exact ⟨.nil, by simp, fun q _ => rfl⟩
    · have hfirst : ∀ e ∈ some (enter R s), ∀ q ≠ 0#5, e.state.cpu.gpr q = s.reg q := by
        rintro e ⟨⟩ q hq
        exact enter_reg s hq
      split at h
      · next t ht =>
        cases h
        simp only [ht]
        refine ⟨.singleton _, hfirst, fun q hq => ?_⟩
        simp [State.reg, Entry.left, ht, Outcome.state, finish, hq]
      · next t ht =>
        cases h
        simp only [ht]
        exact ⟨.singleton _, hfirst, fun q hq => by simp [Entry.left, ht, Outcome.state]⟩
      · next target t ht =>
        obtain ⟨s'', hs'', rfl⟩ := map_eq_some_iff.mp h
        obtain ⟨hchain, hhead, hlast⟩ := ih hs''
        simp only [ht]
        refine ⟨List.isChain_cons.mpr ⟨?_, hchain⟩, hfirst, fun q hq => (hlast q hq).trans ?_⟩
        · intro e he q hq
          rw [hhead e he q hq, Entry.left, ht]
          rfl
        · rw [List.getLast?_cons]
          cases (executed R depth t).getLast? with
          | none => simp [Entry.left, ht, Outcome.state]
          | some e => rfl

theorem trace_spec (es : List (Event M)) (s : State M) : (trace R es s).IsChain (Follows R) ∧
    ∀ e ∈ (trace R es s).head?, ∀ q ≠ 0#5, e.state.cpu.gpr q = s.reg q := by
  induction es generalizing s with
  | nil => exact ⟨.nil, by simp [trace]⟩
  | cons ev es ih =>
    cases ev with
    | call depth =>
      unfold trace
      split
      · next t ht =>
        obtain ⟨hchain, hhead, hlast⟩ := executed_spec ht
        obtain ⟨hrest, hnext⟩ := ih t
        refine ⟨List.isChain_append.mpr ⟨hchain, hrest, fun e he e' he' q hq => ?_⟩,
          fun e he q hq => ?_⟩
        · rw [hnext e' he' q hq, hlast q hq, mem_def.mp he]
          rfl
        · cases hex : executed R depth s with
          | nil =>
            rw [hex, List.nil_append] at he
            rw [hnext e he q hq, hlast q hq, hex]
            rfl
          | cons x l =>
            rw [hex] at he hhead
            exact hhead e he q hq
      · exact ⟨.nil, by simp⟩
    | check m pending =>
      obtain ⟨hchain, hhead⟩ := ih { s with cpu := checkInterrupts pending { s.cpu with mem := m } }
      refine ⟨hchain, fun e he q hq => (hhead e he q hq).trans ?_⟩
      unfold checkInterrupts State.reg
      dsimp only
      split_ifs <;> rfl

variable (R) in
/-- A load is late by one instruction: the one after it finds the register as the load did, and the one
after that what the load brought, unless the instruction between has written the register. -/
structure Delayed (e₁ e₂ : Entry M) (rest : List (Entry M)) : Prop where
  hidden : rtField e₁.insn ∈ sources e₂.insn →
    e₂.state.cpu.gpr (rtField e₁.insn) = e₁.state.cpu.gpr (rtField e₁.insn)
  shown : ∀ e₃ ∈ rest.head?, e₃.state.cpu.gpr (rtField e₁.insn) =
    if dest e₂.insn = some (rtField e₁.insn) then e₂.left R (rtField e₁.insn)
    else e₁.left R (rtField e₁.insn)

/-- A load in a list of instructions, and what comes after it -/
def LoadIn (l : List (Entry M)) (e₁ e₂ : Entry M) (rest : List (Entry M)) : Prop :=
  (∃ before, l = before ++ e₁ :: e₂ :: rest) ∧ isLoad e₁.insn = true ∧ rtField e₁.insn ≠ 0#5

/-- **Load delay.** In a run every load is late by one instruction, if and only if no instruction
computes with a register that the load before it changes: the side register is emptied too early. -/
theorem load_delay_iff (es : List (Event M)) (s : State M) :
    (∀ e₁ e₂ rest, LoadIn (trace R es s) e₁ e₂ rest → Delayed R e₁ e₂ rest) ↔
    ∀ e₁ e₂ rest, LoadIn (trace R es s) e₁ e₂ rest → rtField e₁.insn ∈ sources e₂.insn →
      e₁.left R (rtField e₁.insn) = e₁.state.cpu.gpr (rtField e₁.insn) := by
  have hnext {e₁ e₂ rest} (h : LoadIn (trace R es s) e₁ e₂ rest) :
      Follows R e₁ e₂ ∧ (e₂ :: rest).IsChain (Follows R) := by
    obtain ⟨⟨before, hl⟩, -⟩ := h
    exact (List.isChain_append_cons_cons.mp (hl ▸ (trace_spec es s).1)).2
  constructor
  · intro h e₁ e₂ rest hload hsource
    rw [← (hnext hload).1 _ hload.2.2]
    exact (h e₁ e₂ rest hload).hidden hsource
  · intro h e₁ e₂ rest hload
    obtain ⟨hfirst, hchain⟩ := hnext hload
    have hrt := hload.2.2
    refine ⟨fun hsource => ?_, fun e₃ he₃ => ?_⟩
    · rw [hfirst _ hrt, h e₁ e₂ rest hload hsource]
    · rw [(List.isChain_cons.mp hchain).1 e₃ he₃ _ hrt]
      split_ifs with hdest
      · rfl
      · obtain ⟨hreg, hgpr⟩ := operate_keeps (R := R) hrt hdest
        rw [← hfirst _ hrt, ← hgpr]
        exact if_neg hreg

end

/-- A machine with the same word everywhere, about to execute it -/
def everywhere (word : Word) : State Word := ⟨{ zeroCpu word with pc := 4 }, 0, 0, false⟩

/-- `syscall` saves the address of the instruction after it. -/
theorem syscall_saves_next :
    (raising oneWord 1 false (everywhere 0x0000000C#32)).map (·.1.pc) = some 4#32 ∧
      (execOne oneWord 1 (everywhere 0x0000000C#32)).map (·.cpu.cop0 14) = some 8#32 := by
  decide

/-- `lw $1, 0($1)`, twice: the second takes its address from what the first has loaded. -/
theorem load_not_late : isLoad 0x8C210000#32 = true ∧ sources 0x8C210000#32 = [1#5] ∧
    (trace oneWord [.call 1, .call 1] (everywhere 0x8C210000#32)).map
        (fun e => (e.insn, e.state.cpu.gpr 1)) =
      [(0x8C210000#32, 0#32), (0x8C210000#32, 0x8C210000#32)] := by
  decide

end PsxRecomp.Oracle
