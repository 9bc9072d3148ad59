import PsxRecomp.Emit.BlockText
import PsxRecomp.Emit.CodeGenAgree
import PsxRecomp.Lib.Scope
import Mathlib.Data.List.TakeWhile

/-!
# `Emit/DelaySlot.lean` — the exit of an emitted block against the R3000A

The R3000A decides a transfer before its delay slot: the target from the registers as they are, then the
link, then the slot, which may overwrite the link. The text of `translate_basic_block` writes the link,
saves a branch condition, runs the slot, writes the link a second time and only then reads the register
a `jr` or `jalr` jumps to.
-/

set_option autoImplicit false

namespace PsxRecomp.CodeGen

open CLang Option BitVec CStmt

variable {M : Type}

/-! ## 1. Transfers of the R3000A -/

/-- Whether a branch is taken; `none` for a word that is no branch of the R3000A -/
def branchTaken (insn : Word) (c : Cpu M) : Option Bool :=
  let rs := c.gpr (rsField insn)
  let rt := c.gpr (rtField insn)
  match opField insn with
  | 0x01 =>
    match rtField insn with
    | 0x00 | 0x10 => some (rs.slt 0#32)
    | 0x01 | 0x11 => some ((0#32).sle rs)
    | _ => none
  | 0x04 => some (rs = rt)
  | 0x05 => some (rs ≠ rt)
  | 0x06 => some (rs.sle 0#32)
  | 0x07 => some ((0#32).slt rs)
  | _ => none

def branchNext (pc insn : Word) (c : Cpu M) : Option Word :=
  (branchTaken insn c).map fun taken => if taken then branchTarget pc insn else pc + 8#32

/-- The target of the transfer at `pc`; `none` for a word that is no transfer of the R3000A -/
def transferTarget (pc insn : Word) (c : Cpu M) : Option Word :=
  match opField insn with
  | 0x00 =>
    match functField insn with
    | 0x08 | 0x09 => some (c.gpr (rsField insn))
    | _ => none
  | 0x02 | 0x03 => some (jumpTarget pc insn)
  | _ => branchNext pc insn c

/-- The register a transfer links to, `$zero` for none -/
def linkReg (insn : Word) : Reg :=
  if opField insn = 0x00#6 ∧ functField insn = 0x09#6 then rdField insn
  else if opField insn = 0x03#6 ∨ branchLinks insn then 31#5
  else 0#5

/-- A write to `$zero` is dropped. -/
def linked (r : Reg) (v : Word) (c : Cpu M) : Cpu M := if r = 0#5 then c else c.setGpr r v

/-- The state the delay slot of the transfer at `pc` runs in -/
def link (r : Reg) (v : Word) (s : CState M) : CState M := { s with cpu := linked r v s.cpu }

/-! ## 2. Running text -/

section
variable (R : Runtime M) (d : Dialect)

/-- Run a piece of text from its start; a call that is returned from right away is a jump. -/
def runText : List Emitted → Env → CState M → Option (Flow Word × CState M)
  | [], _, s => some (.next, s)
  | .label _ :: rest, env, s => runText rest env s
  | .code _ a :: rest, env, s =>
    (a.exec d (host R) env s).bind fun
      | (.next, env, s) => runText rest env s
      | (f, _, s) => some (f, s)
  | .tailCall a :: _, _, s => some (.goto a, s)

end

def dest : Flow Word → CState M → Option Word
  | .next, _ => none
  | .goto l, _ => some l
  | .ret, s => some s.cpu.pc

/-- Control goes to `t`, with the registers and the memory of `s`. -/
def Lands (out : Option (Flow Word × CState M)) (t : Word) (s : CState M) : Prop :=
  ∃ f s', out = some (f, s') ∧ dest f s' = some t ∧ SameRegs s'.cpu s.cpu ∧ s'.trap = s.trap

def Straight (text : List Emitted) : Prop :=
  ∀ e ∈ text, match e with
    | .label _ => True
    | .code _ a => a.Simple
    | .tailCall _ => False

section
variable {R : Runtime M} {d : Dialect}

theorem runText_append {a b : List Emitted} (ha : Straight a) (s : CState M) :
    runText R d (a ++ b) [] s = (runText R d a [] s).bind fun r => runText R d b [] r.2 := by
  induction a generalizing s with
  | nil => rfl
  | cons e a ih =>
    have hrest : Straight a := fun x hx => ha x (List.mem_cons_of_mem _ hx)
    have hhead := ha e List.mem_cons_self
    cases e with
    | label l => exact ih hrest s
    | code x st =>
      simp only [List.cons_append, runText, hhead.exec]
      cases st.effect d (host R) s with
      | none => rfl
      | some s' => exact ih hrest s'
    | tailCall x => cases hhead

theorem runText_last (x : Word) (a : CS) (env : Env) (s : CState M) :
    runText R d [.code x a] env s = (a.exec d (host R) env s).map fun r => (r.1, r.2.2) := by
  simp only [runText]
  cases a.exec d (host R) env s with
  | none => rfl
  | some r =>
    obtain ⟨f, env', s'⟩ := r
    cases f <;> rfl

end

/-! ## 3. What `translate_instruction` writes -/

variable {r : Reg} {e : CE}

section
variable {cfg : Config} {instr : Word} {f : RtFn} {conv : CE → CE}

theorem simple_assign (he : e.sees [] = true) : (assign cfg r e).Simple := by
  unfold assign
  split_ifs
  · exact simple_skip
  · exact simple_store he

theorem addrExpr_sees : (addrExpr instr).sees [] = true := by
  unfold addrExpr
  split_ifs <;> rfl

theorem simple_load (hc : ∀ e : CE, (conv e).sees [] = e.sees []) :
    (load cfg instr f conv).Simple := by
  have hread : (CExpr.call1 f (addrExpr instr) : CE).sees [] = true := addrExpr_sees
  simp only [load]
  split_ifs
  · exact simple_expr hread
  · exact simple_store ((hc _).trans hread)

theorem simple_loadMerge : (loadMerge cfg instr f).Simple := by
  simp only [loadMerge]
  split_ifs
  · exact simple_skip
  · exact simple_store (Bool.and_eq_true_iff.mpr ⟨addrExpr_sees, rfl⟩)

theorem simple_storeTo (hc : ∀ e : CE, (conv e).sees [] = e.sees []) :
    (storeTo instr f conv).Simple :=
  simple_expr (Bool.and_eq_true_iff.mpr ⟨addrExpr_sees, hc _⟩)

theorem gteDataExpr_sees (r : Reg) : (gteDataExpr r).sees [] = true := by
  unfold gteDataExpr
  split_ifs <;> rfl

theorem gteCtrlExpr_sees (r : Reg) : (gteCtrlExpr r).sees [] = true := by
  unfold gteCtrlExpr
  split_ifs <;> rfl

theorem simple_gteDataWrite (he : e.sees [] = true) : (gteDataWrite r e).Simple := by
  unfold gteDataWrite
  split_ifs
  · exact simple_expr he
  · exact simple_store he

theorem simple_gteCtrlWrite (he : e.sees [] = true) : (gteCtrlWrite r e).Simple := by
  unfold gteCtrlWrite
  split_ifs
  · exact simple_expr he
  · exact simple_store he

theorem simple_translateSpecial {addr : Word} (h : functField instr ≠ 0x08#6) :
    (translateSpecial cfg instr addr).Simple := by
  unfold translateSpecial
  split
  case h_7 hjr => exact absurd hjr h
  case h_1 =>
    simp only [translateSll]
    split_ifs
    · exact simple_skip
    · exact simple_assign rfl
    · exact simple_assign rfl
  all_goals first
    | exact ⟨rfl, rfl⟩
    | exact simple_assign rfl
    | exact simple_assign (by split_ifs <;> rfl)

theorem simple_translateCop0 : (translateCop0 instr).Simple := by
  simp only [translateCop0]
  split_ifs <;> exact ⟨rfl, rfl⟩

theorem simple_translateCop2 : (translateCop2 instr).Simple := by
  simp only [translateCop2]
  split_ifs
  · exact simple_store (gteDataExpr_sees _)
  · exact simple_store (gteCtrlExpr_sees _)
  · exact simple_gteDataWrite rfl
  · exact simple_gteCtrlWrite rfl
  · exact ⟨rfl, rfl⟩
  · exact simple_skip

theorem simple_translateInstruction {addr : Word} (h : isControlFlow instr = false) :
    (translateInstruction cfg instr addr).Simple := by
  unfold translateInstruction
  split
  case h_1 hop =>
    refine simple_translateSpecial fun hjr => ?_
    simp [isControlFlow, hop, hjr] at h
  case h_2 | h_3 =>
    simp only [translateAddiu]
    split_ifs
    · exact ⟨rfl, rfl⟩
    · exact simple_assign rfl
  case h_10 => exact simple_translateCop0
  case h_11 => exact simple_translateCop2
  case h_7 => exact simple_assign (by split_ifs <;> rfl)
  case h_24 => exact simple_gteDataWrite addrExpr_sees
  case h_25 =>
    exact simple_expr (Bool.and_eq_true_iff.mpr ⟨addrExpr_sees, gteDataExpr_sees _⟩)
  case h_26 => exact simple_skip
  all_goals first
    | exact simple_assign rfl
    | exact simple_load fun _ => rfl
    | exact simple_loadMerge
    | exact simple_storeTo fun _ => rfl

end

/-! ## 4. The text before the exit -/

variable {b : BasicBlock} {a : Word}

section
open List
variable (g : Context)

def beforeExit (b : BasicBlock) : List Emitted :=
  .label b.startAddr :: ((blockWords b).takeWhile (· ≠ b.exitInstr.address)).flatMap (atWord g b) ++
    if b.exitInstr.address ≠ b.startAddr ∧ b.exitInstr.address ∈ g.extraLabels
      then [.label b.exitInstr.address] else []

theorem straight_atWord (ha : a ≠ exitBranchAddr b) :
    Straight (atWord g b a) := by
  intro e he
  unfold atWord at he
  split at he
  · cases he
  · rename_i instr hinstr
    split_ifs at he with hslot
    · cases he
    · rcases mem_append.mp he with hl | hc
      · split_ifs at hl
        · cases mem_singleton.mp hl
          trivial
        · cases hl
      · rw [if_neg ha] at hc
        split_ifs at hc with hcf
        · cases hc
        · cases mem_singleton.mp hc
          exact simple_translateInstruction (Bool.eq_false_iff.mpr hcf)

theorem straight_beforeExit (hx : exitBranchAddr b = b.exitInstr.address) :
    Straight (beforeExit g b) := by
  intro e he
  rcases mem_append.mp he with he | he
  · rcases mem_cons.mp he with rfl | he
    · trivial
    · obtain ⟨a, ha, he⟩ := mem_flatMap.mp he
      have hne : a ≠ b.exitInstr.address := by simpa using mem_takeWhile_imp ha
      exact straight_atWord g (hx ▸ hne) e he
  · split_ifs at he
    · cases mem_singleton.mp he
      trivial
    · cases he

variable {f : Function} (h : Readable g.exe f) {b : BasicBlock} (hb : BlockOf g.exe f b)
include h hb

omit h in
theorem blockWords_pairwise : (blockWords b).Pairwise (· < ·) := by
  refine pairwise_map.mpr (pairwise_lt_range.imp_of_mem ?_)
  intro i j hi hj hij
  rw [lt_def, hb.toNat_word (mem_range.mp hi), hb.toNat_word (mem_range.mp hj)]
  omega

omit h in
theorem atWord_behind (hne : b.exitInstr.type ≠ .none) (ha : a ∈ blockWords b)
    (hlt : b.exitInstr.address < a) : atWord g b a = [] := by
  obtain ⟨hal, -, hle⟩ := (mem_blockWords g hb).mp ha
  have hal : a.toNat % 4 = 0 := hal
  have heA := hb.end_aligned
  rw [lt_def] at hlt
  obtain ⟨w, hw, -, -, ⟨hse, haddr, hslot⟩ | ⟨haddr, -⟩⟩ := hb.exit_cases hne
  · have hend : a = b.endAddr := by
      refine eq_of_toNat_eq ?_
      rw [haddr, toNat_sub_four (by omega)] at hlt
      omega
    simp only [atWord]
    split
    · rfl
    · rw [if_pos ⟨hslot, hend⟩]
  · rw [haddr] at hlt
    omega

theorem translateBasicBlock_split (hne : b.exitInstr.type ≠ .none) :
    translateBasicBlock g b = beforeExit g b ++ exitCode g b b.exitInstr.address := by
  obtain ⟨before, behind, hwords, hnot⟩ :=
    eq_append_cons_of_mem (exit_mem_blockWords g hb hne)
  have hbehind : behind.flatMap (atWord g b) = [] := by
    refine flatMap_eq_nil_iff.mpr fun a ha => ?_
    have hpw := hwords ▸ blockWords_pairwise g hb
    have hlt := (pairwise_cons.mp (pairwise_append.mp hpw).2.1).1 a ha
    exact atWord_behind g hb hne
      (hwords ▸ mem_append_right _ (mem_cons_of_mem _ ha)) hlt
  have htake : (blockWords b).takeWhile (· ≠ b.exitInstr.address) = before := by
    rw [hwords, takeWhile_append_of_pos, takeWhile_cons_of_neg (by simp), append_nil]
    intro a ha
    simpa using fun heq : a = b.exitInstr.address => hnot (heq ▸ ha)
  rw [translateBasicBlock_eq g h hb, if_neg fun hnone => hne hnone.1, append_nil, beforeExit, htake,
    hwords, flatMap_append, flatMap_cons, hbehind, atWord_exit g hb hne]
  simp

end

/-! ## 5. The pieces of the exit -/

variable {t w v n : Word} {taken : Bool} {s : CState M} {c : Cpu M}

section
variable {R : Runtime M} {d : Dialect}

theorem exec_link (r : Reg) (v : Word) (env : Env) (s : CState M) :
    (if r ≠ 0#5 then CStmt.store (.gpr r) (cuint v) else CStmt.skip : CS).exec d (host R) env s =
      some (.next, env, link r v s) := by
  by_cases hr : r = 0#5 <;> simp [hr, link, linked]

theorem linkCode_eq (x w : Word) : linkCode (analyzeInstruction x w) x =
    if linkReg w ≠ 0#5 then .store (.gpr (linkReg w)) (cuint (x + 8#32)) else .skip := by
  simp only [analyzeInstruction]
  split
  case h_1 hop =>
    split
    case h_1 hf =>
      have hno : linkReg w = 0#5 := by simp [linkReg, branchLinks, hop, hf]
      rw [hno]
      by_cases hrs : rsField w = 31#5 <;> simp [linkCode, hrs]
    case h_2 hf => simp [linkCode, linkReg, hop, hf]
    case h_3 hf => simp_all [linkCode, linkReg, branchLinks]
  case h_2 hop =>
    have hr : linkReg w = if branchLinks w then 31#5 else 0#5 := by simp [linkReg, hop]
    rw [hr]
    cases hl : branchLinks w <;> simp [linkCode, hl]
  all_goals simp_all [linkCode, linkReg, branchLinks]

theorem branchCondition_eval (ht : branchTaken w s.cpu = some taken) (env : Env) :
    (branchCondition w).eval d (host R) env s = some (.ofBool taken, s) := by
  simp only [branchTaken] at ht
  simp only [branchCondition]
  split at ht
  case h_1 hop =>
    rw [hop]
    split at ht
    case h_5 => cases ht
    all_goals
      rename_i hrt
      rw [hrt]
      cases ht
      rfl
  case h_3 hop =>
    rw [hop]
    cases ht
    simp [CmpOp.unsigned, bne, beq_eq_decide]
  case h_6 => cases ht
  all_goals
    rename_i hop
    rw [hop]
    cases ht
    rfl

theorem branchTaken_some (h : branchTaken w c = some taken)
    (c' : Cpu M) : ∃ taken', branchTaken w c' = some taken' := by
  simp only [branchTaken] at h ⊢
  split at h
  case h_1 hop =>
    split at h
    case h_5 => cases h
    all_goals exact ⟨_, rfl⟩
  case h_6 => cases h
  all_goals exact ⟨_, rfl⟩

theorem analyze_branch (h : branchTaken w c = some taken)
    (x : Word) : analyzeInstruction x w = ⟨x, w, .branch, branchTarget x w, true, false⟩ ∧
      linkReg w = if branchLinks w then 31#5 else 0#5 := by
  simp only [branchTaken] at h
  split at h
  case h_6 => cases h
  all_goals
    rename_i hop
    simp [analyzeInstruction, linkReg, hop]

theorem sameRegs_linked :
    SameRegs (linked r v c) c ↔ (r ≠ 0#5 → c.gpr r = v) := by
  by_cases hr : r = 0#5
  · simp [linked, hr, SameRegs.refl]
  · simp only [linked, hr, if_false, not_false_eq_true, true_implies, ne_eq]
    constructor
    · intro h
      have := congrFun h.gpr r
      simpa using this.symm
    · intro h
      rw [← h, Cpu.setGpr_self]
      exact SameRegs.refl c

/-- Control leaves for `n`, by a `goto` or through `cpu->pc`. -/
def Goes (out : Option (Flow Word × Env × CState M)) (n : Word) (s : CState M) : Prop :=
  ∃ env, out = some (.goto n, env, s) ∨ out = some (.ret, env, CpuObj.store .pc n s)

theorem Goes.lands_iff {out : Option (Flow Word × Env × CState M)} (h : Goes out n (link r v s)) :
    Lands (out.map fun o => (o.1, o.2.2)) t s ↔ (r ≠ 0#5 → s.cpu.gpr r = v) ∧ n = t := by
  rw [← sameRegs_linked]
  obtain ⟨env, rfl | rfl⟩ := h
  all_goals
    constructor
    · rintro ⟨f, s', heq, hd, ⟨h1, h2, h3, h4, h5, h6⟩, -⟩
      cases heq
      exact ⟨⟨h1, h2, h3, h4, h5, h6⟩, some.inj hd⟩
    · rintro ⟨⟨h1, h2, h3, h4, h5, h6⟩, rfl⟩
      exact ⟨_, _, rfl, rfl, ⟨h1, h2, h3, h4, h5, h6⟩, rfl⟩

theorem goes_publish (n : Word) (env : Env) (s : CState M) :
    Goes ((publish (cuint n)).exec d (host R) env s) n s := ⟨env, .inr rfl⟩

theorem goes_jumpTo (g : Context) (n : Word) (env : Env) (s : CState M) :
    Goes ((jumpTo g n).exec d (host R) env s) n s := by
  unfold jumpTo
  split_ifs
  · exact ⟨env, .inl rfl⟩
  · exact goes_publish n env s

theorem goes_ite {a b : CS} {m : Word} (ha : Goes (a.exec d (host R) [("_bc", .ofBool taken)] s) n s)
    (hb : Goes (b.exec d (host R) [("_bc", .ofBool taken)] s) m s) :
    Goes ((CStmt.ite (.var "_bc") a b).exec d (host R) [("_bc", .ofBool taken)] s)
      (if taken then n else m) s := by
  cases taken with
  | false => exact hb
  | true => exact ha

end

/-! ## 6. The exit -/

/-- Where a `jr` goes that reads `v`: to the label of a table entry, or to `v` itself -/
def jrDest (g : Context) (b : BasicBlock) (v : Word) : Word :=
  match jumpTable g.exe g.cfg.functionStart b.exitInstr with
  | some table =>
    match (switchTargets g (tableEntries g.exe table)).find? (·.1 = v) with
    | some p => p.2
    | none => v
  | none => v

/-- What a delay slot must leave alone: `c` is the state before the transfer, `c'` the one behind the
slot. -/
def SlotOk (g : Context) (b : BasicBlock) (c c' : Cpu M) : Prop :=
  let exit := b.exitInstr
  let w := exit.instruction
  let back := exit.address + 8#32
  -- the link is written again behind the slot
  (linkReg w ≠ 0#5 → c'.gpr (linkReg w) = back) ∧
    match exit.type with
    -- the condition is evaluated behind the first link
    | .branch => branchNext exit.address w (linked (linkReg w) back c) = branchNext exit.address w c
    | .ret | .jumpLinkReg => c'.gpr (rsField w) = c.gpr (rsField w)
    | .jumpRegister => jrDest g b (c'.gpr (rsField w)) = c.gpr (rsField w)
    | .jump | .jumpLink | .none => True

section
variable {R : Runtime M} {d : Dialect} {g : Context}

theorem exec_switchCode (r : Reg) (cases : List (Word × Word)) (s : CState M) :
    (switchCode r cases).exec d (host R) [] s =
      match cases.find? (·.1 = s.cpu.gpr r) with
      | some p => some (.goto p.2, [], s)
      | none => some (.ret, [], CpuObj.store .pc (s.cpu.gpr r) s) := by
  induction cases with
  | nil => rfl
  | cons p rest ih =>
    obtain ⟨runtime, rom⟩ := p
    by_cases hp : runtime = s.cpu.gpr r
    · simp [switchCode, CmpOp.unsigned, hp]
    · have hp' : ¬ s.cpu.gpr r = runtime := fun h => hp h.symm
      simp only [switchCode, List.find?_cons, hp, decide_false, ← ih]
      simp [CmpOp.unsigned, hp']

theorem goes_jumpRegister (htype : b.exitInstr.type = .jumpRegister) (x : Word) (cond : CE) :
    Goes ((transferCode g b x cond).exec d (host R) [] s)
      (jrDest g b (s.cpu.gpr (rsField b.exitInstr.instruction))) s := by
  simp only [transferCode, htype, jrDest]
  cases jumpTable g.exe g.cfg.functionStart b.exitInstr with
  | none => exact ⟨[], .inr rfl⟩
  | some table =>
    simp only [exec_switchCode]
    cases (switchTargets g (tableEntries g.exe table)).find? _ with
    | none => exact ⟨[], .inr rfl⟩
    | some p => exact ⟨[], .inl rfl⟩

end

section
variable {R : Runtime M} {d : Dialect} {g : Context} {b : BasicBlock} {x w slot : Word}
  (hexit : b.exitInstr = analyzeInstruction x w) (hread : g.exe.readWord (x + 4#32) = some slot)
  (hslot : isControlFlow slot = false) {s s' : CState M}
  (heff : (translateInstruction g.config slot (x + 4#32)).effect d (host R)
    (link (linkReg w) (x + 8#32) s) = some s')
include hexit hread hslot heff

theorem runText_exit (hdelay : b.exitInstr.hasDelaySlot = true) (hlikely : b.exitInstr.isLikely = false)
    (hbr : b.exitInstr.type ≠ .branch) :
    runText R d (exitCode g b x) [] s =
      ((transferCode g b x (branchCondition b.exitInstr.instruction)).exec d (host R) [] s').map
        fun r => (r.1, r.2.2) := by
  rw [← runText_last x]
  simp only [exitCode, hdelay, if_true, hread, hlikely, Bool.false_eq_true, if_false, hbr, runText]
  rw [hexit, linkCode_eq, exec_link]
  simp [bind_some, (simple_translateInstruction hslot).exec, heff, map_some]

theorem runText_exit_branch (hdelay : b.exitInstr.hasDelaySlot = true)
    (hlikely : b.exitInstr.isLikely = false) (hbr : b.exitInstr.type = .branch)
    (ht : branchTaken w (linked (linkReg w) (x + 8#32) s.cpu) = some taken) :
    runText R d (exitCode g b x) [] s =
      ((transferCode g b x (.var "_bc")).exec d (host R) [("_bc", .ofBool taken)] s').map
        fun r => (r.1, r.2.2) := by
  have hw : (analyzeInstruction x w).instruction = w := analyzeInstruction_instruction x w
  have hcond := branchCondition_eval (R := R) (d := d)
    (show branchTaken w (link (linkReg w) (x + 8#32) s).cpu = some taken from ht) []
  rw [← runText_last x]
  simp only [exitCode, hdelay, if_true, hread, hlikely, Bool.false_eq_true, if_false, hbr, runText]
  rw [hexit, linkCode_eq, exec_link, hw]
  simp only [bind_some, exec, hcond, (simple_translateInstruction hslot).exec, heff,
    map_some]
  rfl

theorem lands_exit {type : ControlFlowType}
    (hex : b.exitInstr = ⟨x, w, type, a, true, false⟩) (htype : type ≠ .branch)
    (hgoes : Goes ((transferCode g b x (branchCondition b.exitInstr.instruction)).exec d (host R) [] s') n
      (link r v s')) :
    Lands (runText R d (exitCode g b x) [] s) t s' ↔ (r ≠ 0#5 → s'.cpu.gpr r = v) ∧ n = t := by
  rw [runText_exit hexit hread hslot heff (by rw [hex]) (by rw [hex]) (by rwa [hex]), hgoes.lands_iff]

theorem lands_jr (hop : opField w = 0x00#6) (hf : functField w = 0x08#6)
    (ht : transferTarget x w s.cpu = some t) :
    Lands (runText R d (exitCode g b x) [] s) t s' ↔ SlotOk g b s.cpu s'.cpu := by
  have hl : linkReg w = 0#5 := by simp [linkReg, branchLinks, hop, hf]
  have ht : s.cpu.gpr (rsField w) = t := by simpa [transferTarget, hop, hf] using ht
  by_cases hrs : rsField w = 31#5
  · have hex : b.exitInstr = ⟨x, w, .ret, 0#32, true, false⟩ := by
      rw [hexit]
      simp [analyzeInstruction, hop, hf, hrs]
    refine (lands_exit hexit hread hslot heff hex (by decide) (n := s'.cpu.gpr 31#5) (r := 0#5) (v := 0#32)
      ?_).trans ?_
    · simp only [transferCode, hex, publish]
      split_ifs <;> exact ⟨[], .inr rfl⟩
    · simp [SlotOk, hex, hl, ← ht, hrs]
  · have hex : b.exitInstr = ⟨x, w, .jumpRegister, 0#32, true, false⟩ := by
      rw [hexit]
      simp [analyzeInstruction, hop, hf, hrs]
    refine (lands_exit hexit hread hslot heff hex (by decide) (r := 0#5) (v := 0#32)
      (goes_jumpRegister (by rw [hex]) x _)).trans ?_
    simp [SlotOk, hex, hl, ht]

theorem lands_jalr (hop : opField w = 0x00#6) (hf : functField w = 0x09#6)
    (ht : transferTarget x w s.cpu = some t) :
    Lands (runText R d (exitCode g b x) [] s) t s' ↔ SlotOk g b s.cpu s'.cpu := by
  have hex : b.exitInstr = ⟨x, w, .jumpLinkReg, 0#32, true, false⟩ := by
    rw [hexit]
    simp [analyzeInstruction, hop, hf]
  have hl : linkReg w = rdField w := by simp [linkReg, hop, hf]
  have ht : s.cpu.gpr (rsField w) = t := by simpa [transferTarget, hop, hf] using ht
  refine (lands_exit hexit hread hslot heff hex (by decide) (n := s'.cpu.gpr (rsField w)) (r := rdField w)
    (v := x + 8#32) ?_).trans ?_
  · simp only [transferCode, hex, seqs, exec, exec_link, publish]
    exact ⟨[], .inr rfl⟩
  · simp [SlotOk, hex, hl, ht]

theorem lands_jal (hop : opField w = 0x03#6) (ht : transferTarget x w s.cpu = some t) :
    Lands (runText R d (exitCode g b x) [] s) t s' ↔ SlotOk g b s.cpu s'.cpu := by
  have hex : b.exitInstr = ⟨x, w, .jumpLink, jumpTarget x w, true, false⟩ := by
    rw [hexit]
    simp [analyzeInstruction, hop]
  have hl : linkReg w = 31#5 := by simp [linkReg, hop]
  have ht : jumpTarget x w = t := by simpa [transferTarget, hop] using ht
  refine (lands_exit hexit hread hslot heff hex (by decide) (n := t) (r := 31#5) (v := x + 8#32)
    ?_).trans ?_
  · simp only [transferCode, hex, ht]
    exact goes_publish (d := d) t [] _
  · simp [SlotOk, hex, hl, and_true]

variable {f : Function} {bounds : List Word} {last : Word}
  (hsucc : b.successors = successors f bounds b.exitInstr last)
include hsucc

theorem lands_j (hop : opField w = 0x02#6) (hne : jumpTarget x w ≠ 0#32)
    (ht : transferTarget x w s.cpu = some t) :
    Lands (runText R d (exitCode g b x) [] s) t s' ↔ SlotOk g b s.cpu s'.cpu := by
  have hex : b.exitInstr = ⟨x, w, .jump, jumpTarget x w, true, false⟩ := by
    rw [hexit]
    simp [analyzeInstruction, hop]
  have hl : linkReg w = 0#5 := by simp [linkReg, branchLinks, hop]
  have ht : jumpTarget x w = t := by simpa [transferTarget, hop] using ht
  refine (lands_exit hexit hread hslot heff hex (by decide) (n := t) (r := 0#5) (v := 0#32) ?_).trans ?_
  · simp only [successors, hex, if_pos hne] at hsucc
    simp only [transferCode, hex, hsucc, ← ht]
    split_ifs
    · exact ⟨[], .inl rfl⟩
    · exact goes_publish (d := d) _ [] _
  · simp [SlotOk, hex, hl]

theorem lands_branch (ht : branchNext x w s.cpu = some t) :
    Lands (runText R d (exitCode g b x) [] s) t s' ↔ SlotOk g b s.cpu s'.cpu := by
  obtain ⟨before, hbefore, -⟩ := map_eq_some_iff.mp ht
  obtain ⟨taken, htaken⟩ := branchTaken_some hbefore (linked (linkReg w) (x + 8#32) s.cpu)
  obtain ⟨hex, hl⟩ := analyze_branch hbefore x
  rw [← hexit] at hex
  rw [runText_exit_branch hexit hread hslot heff (by rw [hex]) (by rw [hex]) (by rw [hex]) htaken]
  have hrun : Goes ((transferCode g b x (.var "_bc")).exec d (host R) [("_bc", .ofBool taken)] s')
      (if taken then branchTarget x w else x + 8#32) (link (linkReg w) (x + 8#32) s') := by
    have hlink := exec_link (R := R) (d := d) (linkReg w) (x + 8#32) [("_bc", .ofBool taken)] s'
    have hlink' : (if linkReg w ≠ 0#5 then store (.gpr (linkReg w)) (cuint (x + 8#32))
        else skip : CS) =
        if branchLinks w then .store (.gpr 31) (cuint (x + 8#32)) else .skip := by
      rw [hl]
      cases branchLinks w <;> rfl
    rw [hlink'] at hlink
    simp only [successors, hex] at hsucc
    simp only [transferCode, hex, exec, hlink, bind_some]
    have hfar : Goes ((ite (.var "_bc") (jumpTo g (branchTarget x w))
        (jumpTo g (x + 8#32)) : CS).exec d (host R) [("_bc", .ofBool taken)]
          (link (linkReg w) (x + 8#32) s'))
        (if taken then branchTarget x w else x + 8#32) (link (linkReg w) (x + 8#32) s') :=
      goes_ite (goes_jumpTo g _ _ _) (goes_jumpTo g _ _ _)
    split_ifs at hsucc <;> rw [hsucc]
    case pos => exact goes_ite ⟨_, .inl rfl⟩ ⟨_, .inl rfl⟩
    all_goals exact hfar
  rw [hrun.lands_iff]
  have hback : (if taken then branchTarget x w else x + 8#32) = t ↔
      branchNext x w (linked (linkReg w) (x + 8#32) s.cpu) = branchNext x w s.cpu := by
    rw [ht, branchNext, htaken, map_some, some.injEq]
  simp [SlotOk, hex, hback]

end

/-! ## 7. The block -/

theorem jumpTarget_ne_zero {x : Word} (hlo : 0x80000000 ≤ x.toNat) (hhi : x.toNat < 0x80200000)
    (w : Word) : jumpTarget x w ≠ 0#32 := by
  intro h
  have hbit : (x + 4#32).msb = true := by
    rw [msb_eq_decide, toNat_add, show (4#32).toNat = 4 from rfl]
    exact decide_eq_true (by omega)
  have hjump : jumpTarget x w =
      ((x + 4#32) &&& 0xF0000000#32) ||| ((target26 w).setWidth 32 <<< 2) := rfl
  have hzero := congrArg BitVec.msb h
  rw [hjump, msb_or, msb_and, hbit] at hzero
  cases hzero

theorem exit_ne_none {exe : Exe} {start last : Word} {e : ControlFlowInstr} (he : ExitOf exe start last e)
    (ht : transferTarget e.address e.instruction c = some t) :
    e.type ≠ .none := by
  cases he with
  | inBlock _ hw | atEnd _ hw => exact (type_ne_none_iff _ _).mpr hw.2
  | none =>
    have hnop : transferTarget last 0#32 c = none := rfl
    rw [noExit, hnop] at ht
    cases ht

/-- **The exit of a block.** Let the text before the exit leave `s₁`, the R3000A go from there to `t`,
and the statement of the delay slot leave `s₂` once the link is written (whether it is the instruction
is the subject of `Emit/CodeGenAgree.lean`). The block goes to `t` and leaves `s₂` exactly when the slot
keeps what is read or written again behind it. -/
theorem delay_slot_iff (R : Runtime M) (d : Dialect) (g : Context) (f : Function)
    (h : Readable g.exe f) (b : BasicBlock) (hb : b ∈ (analyzeFunction g.exe f).blocks) (slot : Word)
    (hread : g.exe.readWord (b.exitInstr.address + 4#32) = some slot)
    (hslot : isControlFlow slot = false) (s s₁ s₂ : CState M) (t : Word)
    (hbody : runText R d (beforeExit g b) [] s = some (.next, s₁))
    (ht : transferTarget b.exitInstr.address b.exitInstr.instruction s₁.cpu = some t)
    (heff : (translateInstruction g.config slot (b.exitInstr.address + 4#32)).effect d (host R)
      (link (linkReg b.exitInstr.instruction) (b.exitInstr.address + 8#32) s₁) = some s₂) :
    Lands (runText R d (translateBasicBlock g b) [] s) t s₂ ↔ SlotOk g b s₁.cpu s₂.cpu := by
  have hof := blockOf_of_mem h hb
  have hne := exit_ne_none hof.exit ht
  obtain ⟨w, -, hexit, hbr, -⟩ := hof.exit_cases hne
  have hmem := (mem_blockWords g hof).mp (exit_mem_blockWords g hof hne)
  have hw : b.exitInstr.instruction = w := by rw [hexit, analyzeInstruction_instruction]
  rw [translateBasicBlock_split g h hof hne, runText_append (straight_beforeExit g hbr), hbody,
    bind_some]
  rw [hw] at ht heff
  have htarget := ht
  simp only [transferTarget] at ht
  split at ht
  case h_1 hop =>
    split at ht
    case h_1 hf => exact lands_jr hexit hread hslot heff hop hf htarget
    case h_2 hf => exact lands_jalr hexit hread hslot heff hop hf htarget
    case h_3 => cases ht
  case h_2 hop =>
    have hbounds := h.bounds
    have hlo := hof.lo_le
    have hend := hof.bound h
    exact lands_j hexit hread hslot heff hof.succ hop (jumpTarget_ne_zero (by omega) (by omega) w) htarget
  case h_3 hop => exact lands_jal hexit hread hslot heff hop htarget
  case h_4 => exact lands_branch hexit hread hslot heff hof.succ ht

def pairContext (w slot : Word) : Context where
  exe := textExe [w, slot] (by simp)
  config := {}
  cfg := analyzeFunction (textExe [w, slot] (by simp)) (textFunction 2)
  extraLabels := []
  known := []

def pairState (v2 v31 : Word) : CState Word :=
  (((zeroCpu 0).setGpr 2#5 v2).setGpr 31#5 v31).start

/-- `beq $v0, $zero` is taken although `addiu $v0, $zero, 4` stands in its slot. -/
theorem delay_slot_branch : let g := pairContext 0x10400004#32 0x24020004#32
    ∃ b, g.cfg.blocks = [b] ∧ Lands (runText oneWord .iso (translateBasicBlock g b) []
      (pairState 0#32 0#32)) 0x80010014#32 ((pairState 0#32 0#32).cpu.setGpr 2#5 4#32).start := by
  intro g
  let b : BasicBlock := ⟨0x80010000#32, 0x80010004#32, 2#32,
    analyzeInstruction 0x80010000#32 0x10400004#32, []⟩
  have hblocks : g.cfg.blocks = [b] := by decide
  have hlink : linkReg b.exitInstr.instruction = 0#5 := by decide
  have hgoes : transferTarget 0x80010000#32 0x10400004#32 (pairState 0#32 0#32).cpu =
      some 0x80010014#32 := by decide
  refine ⟨b, hblocks, (delay_slot_iff oneWord .iso g (textFunction 2)
    (readable_text (by decide) (by decide)) b (hblocks ▸ List.mem_cons_self) 0x24020004#32 (by decide)
    (by decide) _ (pairState 0#32 0#32) _ 0x80010014#32 rfl hgoes ?_).mpr ⟨fun h => absurd hlink h, ?_⟩⟩
  · rw [hlink]
    rfl
  · show branchNext _ _ (linked (linkReg b.exitInstr.instruction) _ _) = _
    rw [hlink]
    rfl

/-- `jalr $v0, $v0` returns to itself, and `jr $v0` with `addiu $v0, $zero, 4` in its slot goes to 4. -/
theorem target_read_behind_link_and_slot :
    (transferTarget 0x80010000#32 0x00401009#32 (pairState 0x80020000#32 0#32).cpu = some 0x80020000#32 ∧
      ∃ b s', (pairContext 0x00401009#32 0#32).cfg.blocks = [b] ∧
        runText oneWord .iso (translateBasicBlock (pairContext 0x00401009#32 0#32) b) []
          (pairState 0x80020000#32 0#32) = some (.ret, s') ∧ s'.cpu.pc = 0x80010008#32) ∧
    transferTarget 0x80010000#32 0x00400008#32 (pairState 0x80020000#32 0#32).cpu = some 0x80020000#32 ∧
      ∃ b s', (pairContext 0x00400008#32 0x24020004#32).cfg.blocks = [b] ∧
        runText oneWord .iso (translateBasicBlock (pairContext 0x00400008#32 0x24020004#32) b) []
          (pairState 0x80020000#32 0#32) = some (.ret, s') ∧ s'.cpu.pc = 4#32 :=
  ⟨⟨rfl, _, _, rfl, rfl, rfl⟩, rfl, _, _, rfl, rfl, rfl⟩

end PsxRecomp.CodeGen
