import PsxRecomp.Lib.Simulation
import PsxRecomp.Jit.Layout

/-!
# `Jit/Agree.lean` — a fragment against the interpreter

What `overlay_sljit_try_compile` emits, run from its entry, against `exec_one` stepped from the same
address until control leaves the fragment. `Frag.At` relates a position of the interpreter to a position
in the emitted code and a cache; there is one lemma per kind of word.

`StepOk` is what a step has to meet. Each of its fields is a place where the emitted code goes its own
way: it runs the words that were compiled, it skips a `COP2` word the interpreter refuses, it reads
`$ra` after the slot of `jr $ra`, and it links before it tests.
-/

set_option autoImplicit false

namespace PsxRecomp.Jit

open Linear Staged BitVec Instr Bool
open Gen (emit state modify)

/-! ## 1. Addresses -/

def pcAt (entry : Word) (i : Nat) : Word := entry + BitVec.ofNat 32 (4 * i)

/-- The physical address, as `fetch_word` is given it. -/
def phys (a : Word) : Word := a &&& 0x1FFFFFFF#32

variable {t : Int} {insn : Word}

section
variable {entry : Word} {i : Nat}

@[simp] theorem pcAt_zero : pcAt entry 0 = entry := by simp [pcAt]

theorem pcAt_add (k : Nat) : pcAt entry (i + k) = pcAt entry i + BitVec.ofNat 32 (4 * k) := by
  rw [pcAt, pcAt, Nat.mul_add, ofNat_add, BitVec.add_assoc]

theorem pcAt_succ : pcAt entry (i + 1) = pcAt entry i + 4 := pcAt_add 1

theorem phys_pcAt (h : (phys entry).toNat + 4 * i < 2 ^ 29) :
    (phys (pcAt entry i)).toNat = (phys entry).toNat + 4 * i := by
  simp only [phys, Words.toNat_and_low29] at h ⊢
  rw [pcAt, toNat_add, toNat_ofNat]
  omega

theorem branchTarget_pcAt
    (ht : t = ((4 * i : Nat) : Int) + 4 + (simm16Field insn).toInt * 4) (h0 : 0 ≤ t)
    (h4 : t % 4 = 0) : branchTarget (pcAt entry i) insn = pcAt entry (t / 4).toNat := by
  have hnat : ((4 * (t / 4).toNat : Nat) : Int) = t := by omega
  have hofs : BitVec.ofNat 32 (4 * (t / 4).toNat) = BitVec.ofInt 32 t := by
    rw [← ofInt_natCast, hnat]
  have hshift : simm16Field insn <<< 2 = simm16Field insn * 4#32 := by
    rw [shiftLeft_eq_mul_twoPow]
    rfl
  rw [branchTarget, hshift, pcAt, pcAt, hofs, ht, ofInt_add, ofInt_add,
    ofInt_mul, ofInt_toInt, ofInt_natCast]
  simp only [BitVec.add_assoc]
  rfl

theorem jumpTarget_pcAt {n : Nat}
    (ht : t = (((target26 insn).toNat * 4 : Nat) : Int) - ((phys entry).toNat : Int)) (h0 : 0 ≤ t)
    (hn : (t / 4).toNat < n) (hi : i + 1 < n) (hreg : (phys entry).toNat + 4 * n ≤ 2 ^ 28)
    (h4 : t % 4 = 0) : jumpTarget (pcAt entry i) insn = pcAt entry (t / 4).toNat := by
  have hfield : ((target26 insn).setWidth 32 <<< 2).toNat = (target26 insn).toNat * 4 := by
    rw [toNat_shiftLeft, toNat_setWidth, Nat.shiftLeft_eq]
    omega
  have hjump : jumpTarget (pcAt entry i) insn =
      (pcAt entry (i + 1) &&& 0xF0000000#32) ||| (target26 insn).setWidth 32 <<< 2 := by
    rw [pcAt_succ]
    rfl
  apply eq_of_toNat_eq
  rw [hjump, Words.toNat_or_high4 _ (by rw [hfield]; omega), hfield]
  simp only [phys, Words.toNat_and_low29] at ht hreg
  simp only [pcAt, toNat_add, toNat_ofNat]
  omega

end

/-! ## 2. The interpreter on the fragment -/

section
variable {M : Type} (R : Runtime M) (ram : M → Word → Word)

/-- What `fetch_word` reads for a guest address: the live RAM. -/
def fetchWord (m : M) (a : Word) : Word := ram m (phys a)

def isJr (insn : Word) : Bool := opField insn = 0x00#6 && functField insn = 0x08#6

/-- One step of `exec_one` from a guest address. Control leaves the fragment at a `jr`: where it goes
is a value, and emitted code hands it to the dispatcher. -/
def interpStep : Word × Cpu M → Outcome (Word × Cpu M) (Cpu M)
  | (pc, c) =>
    match execOne R (fetchWord ram c.mem) pc c with
    | .next c' => .goOn (pc + 4, c')
    | .transfer c' => if isJr (fetchWord ram c.mem pc) then .leaves c' else .goOn (c'.pc, c')
    | .abort _ _ => .stuck

variable {R} {fetch : Word → Word} {pc insn : Word} {c c' : Cpu M} {off : Nat} {ep : Word}

theorem not_transfer_of_classify (h : classifyControl insn off ep = .none) :
    isDelaySlotTransfer insn = false := by
  simp only [classifyControl] at h
  split_ifs at h <;> simp_all [isDelaySlotTransfer]

theorem not_trap_of_emitOne {κ : GprCache} (h : (emitOne insn κ).val = .ok) :
    isTrap insn = false := by
  by_contra ht
  simp only [isTrap, not_eq_false, and_eq_true, or_eq_true, decide_eq_true_eq] at ht
  obtain ⟨hop, hfn | hfn⟩ := ht <;> simp [emitOne, emitSpecial, hop, hfn] at h

/-- A word that the compiler takes for a plain instruction. -/
def Plain (ep : Word) (off : Nat) (insn : Word) : Prop :=
  classifyControl insn off ep = .none ∧ ∃ κ, (emitOne insn κ).val = .ok

theorem Plain.execNonBranch (hp : Plain ep off insn) (hx : execPlain R insn c = .ok c') :
    execNonBranch R pc insn c = .next c' := by
  obtain ⟨-, κ, hk⟩ := hp
  rw [execNonBranch_of_not_trap c (not_trap_of_emitOne hk), hx]

theorem Plain.execOne (hp : Plain ep off insn) (hf : fetch pc = insn)
    (hx : execPlain R insn c = .ok c') : execOne R fetch pc c = .next c' := by
  subst hf
  rw [execOne_of_not_transfer c (not_transfer_of_classify hp.1), hp.execNonBranch hx]

theorem Plain.execTransfer (hp : Plain ep off insn) (hf : fetch (pc + 4) = insn)
    (hx : execPlain R insn c = .ok c') (target : Word) :
    execTransfer R fetch pc target c = .transfer { c' with pc := target } := by
  subst hf
  simp only [PsxRecomp.execTransfer, execDelaySlot, not_transfer_of_classify hp.1,
    false_eq_true, if_false, hp.execNonBranch hx]

def branchTaken (insn : Word) (c : Cpu M) : Bool :=
  let rs := c.gpr (rsField insn)
  let rt := c.gpr (rtField insn)
  match opField insn with
  | 0x04 => rs = rt
  | 0x05 => rs ≠ rt
  | 0x06 => rs.sle 0#32
  | 0x07 => (0#32).slt rs
  | _ => if rtField insn = 0x00#5 ∨ rtField insn = 0x10#5 then rs.slt 0#32 else (0#32).sle rs

/-- The state with the link of `BLTZAL` and `BGEZAL` written. -/
def linked (pc insn : Word) (c : Cpu M) : Cpu M :=
  if isLinkBranch insn then c.setGpr 31 (pc + 8) else c

theorem jr_of_classify :
    (classifyControl insn off ep = .ret → isJr insn = true ∧ rsField insn = 31#5) ∧
      (classifyControl insn off ep = .tailjump → isJr insn = true) := by
  constructor <;> intro h <;> simp only [classifyControl] at h <;> split_ifs at h <;> simp_all [isJr]

variable {ram} in
theorem interpStep_jr (hf : fetchWord ram c.mem pc = insn) (hjr : isJr insn = true)
    (htrans : execTransfer R (fetchWord ram c.mem) pc (c.gpr (rsField insn)) c = .transfer c') :
    interpStep R ram (pc, c) = .leaves c' := by
  subst hf
  have hop := hjr
  simp only [isJr, and_eq_true, decide_eq_true_eq] at hop
  simp [interpStep, execOne, hop, htrans, hjr]

theorem execOne_jump (hf : fetch pc = insn) (h : classifyControl insn off ep = .jump t) :
    isJr insn = false ∧ t = (((target26 insn).toNat * 4 : Nat) : Int) - (ep.toNat : Int) ∧
      execOne R fetch pc c = execTransfer R fetch pc (jumpTarget pc insn) c := by
  subst hf
  simp only [classifyControl] at h
  split_ifs at h with h0 h8 hra h9 h3 h2
  cases h
  refine ⟨by simp [isJr, h2], rfl, ?_⟩
  simp [execOne, h2]

theorem execOne_branch (hf : fetch pc = insn) (h : classifyControl insn off ep = .branch t) :
    isJr insn = false ∧ t = (off : Int) + 4 + (simm16Field insn).toInt * 4 ∧
      execOne R fetch pc c = execTransfer R fetch pc
        (if branchTaken insn c then branchTarget pc insn else pc + 8) (linked pc insn c) := by
  subst hf
  simp only [classifyControl] at h
  split_ifs at h with h0 h8 hra h9 h3 h2 hb h1 hrt
  · cases h
    refine ⟨?_, rfl, ?_⟩
    · rcases hb with hop | hop | hop | hop <;> simp [isJr, hop]
    · rcases hb with hop | hop | hop | hop <;>
        simp [execOne, linked, isLinkBranch, branchTaken, hop]
  · cases h
    refine ⟨by simp [isJr, h1], rfl, ?_⟩
    rcases hrt with hrt | hrt | hrt | hrt <;>
      simp [execOne, linked, isLinkBranch, branchTaken, h1, hrt]

end

/-! ## 3. Transfers before their slot -/

variable {cc : Cond} {off : Nat}

section
variable {M : Type} {R : Runtime M} {used : Finset Reg} {P : List Reg} {x : Option (BitVec 64)}
  {κ : GprCache} {h : HState M} {c : Cpu M} {insn : Word}

theorem Ok.setCtrl (hok : Ok used P x κ h c) (v : BitVec 64) :
    Ok used P (some v) κ (h.set64 .ctrl v) c where
  sync := hok.sync.congr (fun k => set64_reg_ne (by simp) h v) rfl
  wf := hok.wf
  ctrl := set64_reg_self h .ctrl v

theorem Ok.setPc (hok : Ok used P x κ h c) (p : Word) : Ok used P x κ h { c with pc := p } where
  sync := ⟨hok.sync.cached, hok.sync.uncached,
    congrArg (fun d : Cpu M => { d with pc := p }) hok.sync.rest, hok.sync.zero⟩
  wf := hok.wf
  ctrl := hok.ctrl

/-- What `R_CTRL` holds for a predicate. -/
def ctrlFlag (b : Bool) : BitVec 64 := (flag b).setWidth 64

theorem ctrlFlag_eq_zero (b : Bool) : ctrlFlag b = 0#64 ↔ b = false := by
  cases b <;> decide

/-- The predicate of a branch is in `R_CTRL` before the slot runs. -/
def Decides (used : Finset Reg) (b : Bool) (c : Cpu M) : Unit → GprCache → HState M → Prop :=
  fun _ κ h => Ok used [] (some (ctrlFlag b)) κ h c

theorem wp_flagToCtrl {a b : Opnd} {u v : Word} (hok : Ok used P x κ h c)
    (ha : Reads h a u) (hb : Reads h b v) :
    wp (exec R) (do emitOp (.cmp32 a b); emitOp (.setFlag .ctrl cc))
      (fun _ κ' h' => Ok used P (some (ctrlFlag (cc.holds u v))) κ' h' c) κ h := by
  refine wp_bind (wp_emitOp (exec_cmp32 ha hb) ?_)
  refine wp_emitOp rfl ?_
  have hok' : Ok used P x κ { h with flags := some (u, v) } c := hok.congr (fun _ _ => rfl) rfl
  exact hok'.setCtrl _

theorem wp_emitCondZero {rs : Reg} (hok : Ok used [] x κ h c) (hrs : Uses used rs) :
    wp (exec R) (emitCondZero rs cc)
      (fun _ κ' h' => ∃ P, Ok used P (some (ctrlFlag (cc.holds (c.gpr rs) 0#32))) κ' h' c) κ h := by
  refine wp_bind (wp_gprSrc hok (by simp) hrs ?_)
  intro a κ₁ h₁ hok₁ ha _ _
  refine wp_bind (wp_asReg hok₁ (ha.reads hok₁.sync) ?_)
  intro a' h₂ hok₂ ha' _
  exact wp_mono (wp_flagToCtrl hok₂ ha' (.imm _ _)) fun _ _ _ hok' => ⟨_, hok'⟩

theorem wp_emitCondEq {rs rt : Reg} (hok : Ok used [] x κ h c) (hrs : Uses used rs)
    (hrt : Uses used rt) :
    wp (exec R) (emitCondEq rs rt cc)
      (fun _ κ' h' => ∃ P, Ok used P (some (ctrlFlag (cc.holds (c.gpr rs) (c.gpr rt)))) κ' h' c)
      κ h := by
  refine wp_bind (wp_gprSrc hok (by simp) hrs ?_)
  intro a κ₁ h₁ hok₁ ha _ _
  refine wp_bind (wp_gprSrc hok₁ (by simp) hrt ?_)
  intro b κ₂ h₂ hok₂ hb hkeep _
  refine wp_bind (wp_notBothImm hok₂ ((hkeep a rs ha).reads hok₂.sync) ?_)
  intro a' h₃ hok₃ ha'
  exact wp_mono (wp_flagToCtrl hok₃ ha' (hb.reads hok₃.sync)) fun _ _ _ hok' => ⟨_, hok'⟩

theorem uses_branch {ep : Word}
    (hc : classifyControl insn off ep = .branch t) (hu : gprRefMask insn ⊆ used) :
    Uses used (rsField insn) ∧
      (opField insn = 0x04#6 ∨ opField insn = 0x05#6 → Uses used (rtField insn)) ∧
      (isLinkBranch insn = true → Uses used 31) := by
  simp only [classifyControl] at hc
  split_ifs at hc with h0 h8 hra h9 h3 h2 hb h1 hrt
  · have hm : gprRefMask insn = ({rsField insn, rtField insn} : Finset Reg).erase 0 := by
      simp only [gprRefMask]
      rcases hb with hop | hop | hop | hop <;> rw [hop] <;> rfl
    obtain ⟨hrs, hrt⟩ := uses_rs_rt hu hm
    refine ⟨hrs, fun _ => hrt, fun hl => ?_⟩
    simp only [isLinkBranch, and_eq_true, decide_eq_true_eq] at hl
    exact absurd hl.1 (by rcases hb with hop | hop | hop | hop <;> rw [hop] <;> decide)
  · have hm : gprRefMask insn = (if rtField insn = 0x10#5 ∨ rtField insn = 0x11#5 then
        {rsField insn, 31} else {rsField insn} : Finset Reg).erase 0 := by
      simp only [gprRefMask, h1]
      rfl
    rw [hm] at hu
    have hlink : isLinkBranch insn = true ↔ rtField insn = 0x10#5 ∨ rtField insn = 0x11#5 := by
      simp [isLinkBranch, h1]
    refine ⟨uses_of_mem ?_ hu, ?_, fun hl => uses_of_mem ?_ hu⟩
    · split_ifs <;> simp
    · rw [h1]
      rintro (h | h) <;> cases h
    · rw [if_pos (hlink.mp hl)]
      simp

theorem Cond.holds_decide (a b : Word) : Cond.equal.holds a b = decide (a = b) ∧
    Cond.notEqual.holds a b = decide (a ≠ b) := by
  constructor <;> rw [Bool.eq_iff_iff] <;> simp [Cond.holds]

theorem wp_emitCondToS1 {ep : Word} (hok : Ok used [] x κ h c)
    (hc : classifyControl insn off ep = .branch t) (hu : gprRefMask insn ⊆ used) :
    wp (exec R) (emitCondToS1 insn) (Decides used (branchTaken insn c) c) κ h := by
  obtain ⟨hrs, hrt, -⟩ := uses_branch hc hu
  have hunpin : ∀ b κ' h', (∃ P, Ok used P (some (ctrlFlag b)) κ' h' c) →
      wp (exec R) gprUnpin (Decides used b c) κ' h' := by
    rintro b κ' h' ⟨P, hok'⟩
    exact wp_gprUnpin hok' fun _ hok'' => hok''
  simp only [classifyControl] at hc
  split_ifs at hc with h0 h8 hra h9 h3 h2 hb h1 hrt'
  · rcases hb with hop | hop | hop | hop
    all_goals
      simp only [emitCondToS1, branchTaken, hop]
    · rw [← (Cond.holds_decide _ _).1]
      exact wp_seq (wp_emitCondEq hok hrs (hrt (.inl hop))) fun _ => hunpin _
    · rw [← (Cond.holds_decide _ _).2]
      exact wp_seq (wp_emitCondEq hok hrs (hrt (.inr hop))) fun _ => hunpin _
    · exact wp_seq (wp_emitCondZero hok hrs) fun _ => hunpin _
    · exact wp_seq (wp_emitCondZero hok hrs) fun _ => hunpin _
  · simp only [emitCondToS1, branchTaken, h1]
    have hcc : (if rtField insn = 0x00#5 ∨ rtField insn = 0x10#5 then
        (c.gpr (rsField insn)).slt 0#32 else (0#32).sle (c.gpr (rsField insn))) =
        (if rtField insn = 0x00#5 ∨ rtField insn = 0x10#5 then Cond.sigLess
          else .sigGreaterEqual).holds (c.gpr (rsField insn)) 0#32 := by
      split_ifs <;> rfl
    rw [hcc]
    exact wp_seq (wp_emitCondZero hok hrs) fun _ => hunpin _

end

/-! ## 4. Running a word -/

section
variable {M : Type} {R : Runtime M} {entry ep : Word} {word : Nat → Word}

namespace Frag
variable (F : Frag entry ep word) {i : Nat} {κ : GprCache} {code rest : List (Item Nat Instr)}
  {h : HState M} {c : Cpu M} {x : Option (BitVec 64)} {p : Pending}

theorem enter (hi : i + 2 ≤ F.size) (hcount : slotCount κ = slotCount F.start)
    (hem : emitFrom F.scan entry ep i .none κ (F.wordsFrom i) = some code)
    (hok : Ok F.used [] x κ h c) :
    ∃ κ' code' h', F.Inside i κ' code' ∧ Ok F.used [] x κ' h' c ∧
      Linear.run (exec R) code h = Linear.run (exec R) code' h' := by
  rw [F.wordsFrom_cons (by omega)] at hem
  obtain ⟨c₁, p', κ₁, rest, hw, hrest, rfl⟩ := F.emitFrom_cons hem
  obtain ⟨hval, rfl, rfl⟩ := F.emitWord_some hw
  cases ht : F.scan.isTarget i with
  | true =>
    simp only [ht, if_true] at hval hrest ⊢
    have hjoin : wp (exec R) (do gprFlush; gprReset : Emit Unit)
        (fun _ κ' h' => Ok F.used [] x κ' h' c) κ h := by
      refine wp_bind (wp_gprFlush hok ?_)
      intro κ₂ h₂ hok₂ hcpu
      exact wp_gprReset hok₂.wf hok₂.ctrl hcpu hok₂.sync.zero fun _ hok' _ => hok'
    obtain ⟨h', hrun, hok'⟩ := hjoin
    refine ⟨_, _, h', ⟨hi, ?_, p', rest, hval, rfl, hrest⟩, hok', ?_⟩
    · exact (Keeps.bind keeps_gprFlush (fun _ => keeps_gprReset) κ).trans hcount
    · rw [List.append_assoc, List.append_assoc, run_instrs_append hrun]
      rfl
  | false =>
    simp only [ht, false_eq_true, if_false, List.nil_append] at hval hrest ⊢
    exact ⟨κ, _, h, ⟨hi, hcount, p', rest, hval, rfl, hrest⟩, hok, rfl⟩

theorem succ_bound (hi : i + 2 ≤ F.size) (hc : classifyControl (word i) (4 * i) ep ≠ .ret) :
    i + 3 ≤ F.size := by
  by_contra hlt
  have hlast := F.scanned.last
  have hi' : F.scan.fragWords - 2 = i := by
    simp only [size] at hi hlt
    omega
  rw [hi'] at hlast
  exact hc hlast

theorem ok_of_blank (hb : Blank κ) (hcount : slotCount κ = slotCount F.start)
    (hctrl : h.reg .ctrl = x) (hcpu : { h.cpu with pc := c.pc } = c) (h0 : c.gpr 0#5 = 0#32) :
    Ok F.used [] x κ h c where
  sync := .of_memory hb.uncached hcpu h0
  wf := by
    refine hb.wf ?_
    have := F.room
    simpa only [Room, hcount] using this
  ctrl := hctrl

end Frag

/-! ### The transfers up to their slot -/

section
variable {used : Finset Reg} {κ : GprCache} {h : HState M} {c : Cpu M} {x : Option (BitVec 64)}
  {insn : Word} {i : Nat}

theorem wp_emitHead_branch (hc : classifyControl insn (4 * i) ep = .branch t)
    (hok : Ok used [] x κ h c) (hu : gprRefMask insn ⊆ used) :
    wp (exec R) (emitHead entry ep i insn) (fun p κ' h' =>
      p = some (.br (t / 4).toNat true) ∧ Ok used []
        (some (ctrlFlag (branchTaken insn (linked (pcAt entry i) insn c)))) κ' h'
        (linked (pcAt entry i) insn c)) κ h := by
  obtain ⟨-, -, hra⟩ := uses_branch hc hu
  have hcond : ∀ κ' h', Ok used [] x κ' h' (linked (pcAt entry i) insn c) →
      wp (exec R) (do emitCondToS1 insn; return some (Pending.br (t / 4).toNat true))
        (fun p κ' h' => p = some (.br (t / 4).toNat true) ∧ Ok used []
          (some (ctrlFlag (branchTaken insn (linked (pcAt entry i) insn c)))) κ' h'
          (linked (pcAt entry i) insn c)) κ' h' := by
    intro κ' h' hok'
    exact wp_seq (wp_emitCondToS1 hok' hc hu) fun _ _ _ hok'' => wp_pure ⟨rfl, hok''⟩
  unfold emitHead
  simp only [hc]
  cases hl : isLinkBranch insn with
  | true =>
    rw [linked, if_pos hl] at hcond ⊢
    refine wp_seq (wp_emitMove hok (hra hl) fun _ _ => rfl) fun _ κ' h' hok' => hcond κ' h' ?_
    rw [Leaves, Cpu.writeBack_eq hok.sync.zero, if_neg (by decide)] at hok'
    exact hok'
  | false =>
    rw [linked, hl, if_neg (by simp)] at hcond ⊢
    exact hcond κ h hok

theorem wp_emitHead_tailjump (hc : classifyControl insn (4 * i) ep = .tailjump)
    (hok : Ok used [] x κ h c) (hu : gprRefMask insn ⊆ used) :
    wp (exec R) (emitHead entry ep i insn) (fun p κ' h' =>
      p = some .tail ∧ Ok used [] (some ((c.gpr (rsField insn)).setWidth 64)) κ' h' c) κ h := by
  have hrs : Uses used (rsField insn) := by
    simp only [classifyControl] at hc
    split_ifs at hc with h0 h8 hra
    have hm : gprRefMask insn = ({rsField insn} : Finset Reg).erase 0 := by
      simp [gprRefMask, h0, h8]
    rw [hm] at hu
    exact uses_of_mem (by simp) hu
  unfold emitHead
  simp only [hc]
  refine wp_bind (wp_gprSrc hok (by simp) hrs ?_)
  intro a κ₁ h₁ hok₁ ha _ _
  have hmov : (Op.mov32 .ctrl a).exec R h₁ = some (h₁.set32 .ctrl (c.gpr (rsField insn))) := by
    simp [Op.exec, (ha.reads hok₁.sync).val]
  refine wp_bind (wp_emitOp hmov ?_)
  exact wp_bind (wp_gprUnpin (hok₁.setCtrl _) fun _ hok' => wp_pure ⟨rfl, hok'⟩)

end

/-! ## 5. The simulation -/

/-- The condition on one step of the interpreter, at `pc` in state `c`; `bytes` is the snapshot the
fragment was compiled from. -/
structure StepOk (R : Runtime M) (ram : M → Word → Word) (bytes : Nat → BitVec 8) (pc : Word)
    (c : Cpu M) : Prop where
  /-- RAM still holds the word that was compiled … -/
  code : fetchWord ram c.mem pc = imgWord bytes (phys pc).toNat
  /-- … and, for a transfer, that of its slot. -/
  slot : isDelaySlotTransfer (imgWord bytes (phys pc).toNat) = true →
    fetchWord ram c.mem (pc + 4) = imgWord bytes (phys (pc + 4)).toNat
  /-- No `COP2` word that the interpreter refuses. -/
  known : Cop2Known (imgWord bytes (phys pc).toNat)
  slotKnown : isDelaySlotTransfer (imgWord bytes (phys pc).toNat) = true →
    Cop2Known (imgWord bytes (phys (pc + 4)).toNat)
  /-- The slot of a `jr $ra` leaves `$ra` alone. -/
  ra : isJr (imgWord bytes (phys pc).toNat) = true →
    rsField (imgWord bytes (phys pc).toNat) = 31#5 →
    ∀ c', execPlain R (imgWord bytes (phys (pc + 4)).toNat) c = .ok c' → c'.gpr 31#5 = c.gpr 31#5
  /-- A `bltzal` or `bgezal` on `$ra` gets the same answer from the link. -/
  link : isLinkBranch (imgWord bytes (phys pc).toNat) = true →
    rsField (imgWord bytes (phys pc).toNat) = 31#5 →
    (c.gpr 31#5).slt 0#32 = (pc + 8).slt 0#32

theorem branchTaken_regimm (hop : opField insn = 0x01#6) (c : Cpu M) :
    branchTaken insn c = (if rtField insn = 0x00#5 ∨ rtField insn = 0x10#5 then
      (c.gpr (rsField insn)).slt 0#32 else !(c.gpr (rsField insn)).slt 0#32) := by
  simp only [branchTaken, hop, sle_eq_not_slt]
  rfl

theorem branchTaken_linked {pc : Word} {c : Cpu M} (h : isLinkBranch insn = true → rsField insn = 31#5 →
      (c.gpr 31#5).slt 0#32 = (pc + 8).slt 0#32) :
    branchTaken insn (linked pc insn c) = branchTaken insn c := by
  cases hl : isLinkBranch insn with
  | false => rw [linked, hl, if_neg (by simp)]
  | true =>
    have hop : opField insn = 0x01#6 := by
      simp only [isLinkBranch, and_eq_true, decide_eq_true_eq] at hl
      exact hl.1
    have hsign : ((linked pc insn c).gpr (rsField insn)).slt 0#32 =
        (c.gpr (rsField insn)).slt 0#32 := by
      rw [linked, if_pos hl, Cpu.setGpr_gpr]
      split_ifs with hrs
      · rw [hrs]
        exact (h hl hrs).symm
      · rfl
    rw [branchTaken_regimm hop, branchTaken_regimm hop, hsign]

def ramWord (bytes : Nat → BitVec 8) (entry : Word) (i : Nat) : Word :=
  imgWord bytes ((phys entry).toNat + 4 * i)

section
variable {bytes : Nat → BitVec 8} (F : Frag entry (phys entry) (ramWord bytes entry))

/-- The interpreter at `(pc, c)` is where the emitted code is: before word `i`, with the cache
standing for `c`. -/
def Frag.At (k : Nat) (t : Word × Cpu M) (code : List (Item Nat Instr)) (h : HState M) : Prop :=
  ∃ i κ x, t.1 = pcAt entry i ∧ k = F.size - i ∧ F.Inside i κ code ∧ Ok F.used [] x κ h t.2

variable {F} {ram : M → Word → Word} {k i : Nat} {code : List (Item Nat Instr)} {h : HState M}
  {κ : GprCache} {x : Option (BitVec 64)} {c : Cpu M}

/-- What the step lemmas below establish for a step from word `i` in state `c`. -/
def Frag.Matches (F : Frag entry (phys entry) (ramWord bytes entry)) (R : Runtime M)
    (ram : M → Word → Word) (i : Nat) (c : Cpu M) (code : List (Item Nat Instr))
    (h : HState M) : Prop :=
  (∃ h', interpStep R ram (pcAt entry i, c) = .leaves h'.cpu ∧
    Linear.run (exec R) code h = some (.ret, h')) ∨
  ∃ k' t' code' h', interpStep R ram (pcAt entry i, c) = .goOn t' ∧ F.At k' t' code' h' ∧
    ((Linear.run (exec R) code h = Linear.run (exec R) code' h' ∧ k' < F.size - i) ∨
      ∃ l, Linear.run (exec R) code h = some (.goto l, h') ∧ after l F.code = some code')

variable {c' : Cpu M}

theorem Frag.Matches.of_next {j : Nat} {h₁ : HState M}
    {rest : List (Item Nat Instr)} {κ₁ : GprCache} (hij : i < j) (hj : j + 2 ≤ F.size)
    (hstep : interpStep R ram (pcAt entry i, c) = .goOn (pcAt entry j, c'))
    (hcount : slotCount κ₁ = slotCount F.start)
    (hem : emitFrom F.scan entry (phys entry) j .none κ₁ (F.wordsFrom j) = some rest)
    (hok : Ok F.used [] x κ₁ h₁ c')
    (hrun : Linear.run (exec R) code h = Linear.run (exec R) rest h₁) :
    F.Matches R ram i c code h := by
  obtain ⟨κ', code', h', hin, hok', hrun'⟩ := F.enter (R := R) hj hcount hem hok
  refine .inr ⟨_, _, code', h', hstep, ⟨j, κ', x, rfl, rfl, hin, hok'⟩, .inl ⟨hrun.trans hrun', ?_⟩⟩
  omega

theorem Frag.Matches.of_goto {j : Nat} {h₁ : HState M} (ht : F.scan.isTarget j = true)
    (hstep : interpStep R ram (pcAt entry i, c) = .goOn (pcAt entry j, c'))
    (hcpu : { h₁.cpu with pc := c'.pc } = c') (h0 : c'.gpr 0#5 = 0#32)
    (hrun : Linear.run (exec R) code h = some (.goto j, h₁)) :
    F.Matches R ram i c code h := by
  obtain ⟨κ', code', hafter, hblank, hin⟩ := F.after_target ht
  refine .inr ⟨_, _, code', h₁, hstep, ⟨j, κ', h₁.reg .ctrl, rfl, rfl, hin, ?_⟩,
    .inr ⟨j, hrun, hafter⟩⟩
  exact F.ok_of_blank hblank hin.count rfl hcpu h0

/-- The condition on a step at word `i`, in the fragment's own words. -/
structure WordOk (R : Runtime M) (ram : M → Word → Word) (bytes : Nat → BitVec 8) (entry : Word)
    (i : Nat) (c : Cpu M) : Prop where
  code : fetchWord ram c.mem (pcAt entry i) = ramWord bytes entry i
  slot : isDelaySlotTransfer (ramWord bytes entry i) = true →
    fetchWord ram c.mem (pcAt entry i + 4) = ramWord bytes entry (i + 1) ∧
      Cop2Known (ramWord bytes entry (i + 1))
  known : Cop2Known (ramWord bytes entry i)
  ra : isJr (ramWord bytes entry i) = true → rsField (ramWord bytes entry i) = 31#5 →
    ∀ c', execPlain R (ramWord bytes entry (i + 1)) c = .ok c' → c'.gpr 31#5 = c.gpr 31#5
  link : isLinkBranch (ramWord bytes entry i) = true →
    rsField (ramWord bytes entry i) = 31#5 → (c.gpr 31#5).slt 0#32 = (pcAt entry i + 8).slt 0#32

theorem StepOk.wordOk (hs : StepOk R ram bytes (pcAt entry i) c) (hi : i + 2 ≤ F.size)
    (hram : (phys entry).toNat + 4 * F.size ≤ ramSize) : WordOk R ram bytes entry i c := by
  have hsz : ramSize = 2 ^ 21 := rfl
  have h₁ : imgWord bytes (phys (pcAt entry i)).toNat = ramWord bytes entry i := by
    rw [phys_pcAt (by omega), ramWord]
  have h₂ : imgWord bytes (phys (pcAt entry i + 4)).toNat = ramWord bytes entry (i + 1) := by
    rw [← pcAt_succ, phys_pcAt (by omega), ramWord]
  obtain ⟨hcode, hslot, hknown, hslotKnown, hra, hlink⟩ := hs
  rw [h₁] at hcode hslot hknown hslotKnown hra hlink
  rw [h₂] at hslot hslotKnown hra
  exact ⟨hcode, fun ht => ⟨hslot ht, hslotKnown ht⟩, hknown, hra, hlink⟩

theorem isDelaySlotTransfer_of_classify
    (h : classifyControl insn off ep ≠ .none) : isDelaySlotTransfer insn = true := by
  simp only [classifyControl] at h
  split_ifs at h <;> simp_all [isDelaySlotTransfer]
  tauto

theorem Frag.transfer_slot {p : Pending} {rest : List (Item Nat Instr)} {c₁ : Cpu M}
    (hb : i + 2 ≤ F.size) (hw : WordOk R ram bytes entry i c)
    (hc : classifyControl (ramWord bytes entry i) (4 * i) (phys entry) ≠ .none) (hp : p ≠ .none)
    (hcount : slotCount κ = slotCount F.start)
    (hem : emitFrom F.scan entry (phys entry) (i + 1) p κ (F.wordsFrom (i + 1)) = some rest)
    (hok : Ok F.used [] x κ h c₁) :
    i + 1 ≠ F.size - 2 ∧ ∃ c' κ' h' rest',
      execPlain R (ramWord bytes entry (i + 1)) c₁ = .ok c' ∧
      (∀ target, execTransfer R (fetchWord ram c.mem) (pcAt entry i) target c₁ =
        .transfer { c' with pc := target }) ∧
      Ok F.used [] x κ' h' c' ∧ { h'.cpu with pc := c'.pc } = c' ∧
      slotCount κ' = slotCount F.start ∧ (emitTransfer p κ').val = some .none ∧
      emitFrom F.scan entry (phys entry) (i + 2) .none (emitTransfer p κ').gen
        (F.wordsFrom (i + 2)) = some rest' ∧
      Linear.run (exec R) rest h =
        Linear.run (exec R) ((emitTransfer p κ').code.map .instr ++ rest') h' := by
  obtain ⟨hfetch, hknown⟩ := hw.slot (isDelaySlotTransfer_of_classify hc)
  have hds : i + 1 ∈ F.scan.ds :=
    F.scanned.ds i (Nat.zero_le i) (by simp only [size] at hb; omega) hc
  have ht : F.scan.isTarget (i + 1) = false :=
    eq_false_iff.mpr fun ht => (F.isTarget_not_ds ht).2 hds
  rw [F.wordsFrom_cons (by omega)] at hem
  obtain ⟨c₁, p', κ₁, rest', hword, hrest, rfl⟩ := F.emitFrom_cons hem
  obtain ⟨hval, rfl, rfl⟩ := F.emitWord_some hword
  simp only [ht, false_eq_true, if_false, if_neg hp, List.nil_append] at hval hrest ⊢
  obtain ⟨rfl, -, hcn, hst⟩ := emitSlot_val hval
  have hplain : Plain (phys entry) (4 * (i + 1)) (ramWord bytes entry (i + 1)) := ⟨hcn, κ, hst⟩
  obtain ⟨h₁, hrun₁, hem₁⟩ := wp_emitOne (R := R) hok (F.refs (i + 1) hb) hknown
  obtain ⟨c', hx, hok₁⟩ := hem₁ hst
  obtain ⟨h₂, hrun₂, hok₂, hcpu⟩ := wp_gprFlush (R := R) hok₁
    (Q := fun _ κ' h' => Ok F.used [] x κ' h' c' ∧ { h'.cpu with pc := c'.pc } = c')
    fun κ' h' hok' hcpu => ⟨hok', hcpu⟩
  simp only [emitSlot, hcn, bind_apply, hst] at hval hrest ⊢
  refine ⟨fun heq => ?_, c', _, h₂, rest', hx, hplain.execTransfer hfetch hx, hok₂, hcpu, ?_, hval,
    hrest, ?_⟩
  · have hlast := F.scanned.last
    rw [← heq, hcn] at hlast
    cases hlast
  · exact (keeps_gprFlush _).trans ((keeps_emitOne _ _).trans hcount)
  · simp only [List.map_append, List.append_assoc]
    rw [run_instrs_append hrun₁, run_instrs_append hrun₂]

section
variable (hin : F.Inside i κ code) (hok : Ok F.used [] x κ h c) (hw : WordOk R ram bytes entry i c)
include hin hok hw

theorem Frag.matches_plain
    (hc : classifyControl (ramWord bytes entry i) (4 * i) (phys entry) = .none) :
    F.Matches R ram i c code h := by
  obtain ⟨hb, hcount, p, rest, hval, rfl, hrest⟩ := hin
  have hb' := F.succ_bound hb (by rw [hc]; simp)
  obtain ⟨h₁, hrun₁, hem₁⟩ := wp_emitOne (R := R) hok (F.refs i (show i < F.size by omega)) hw.known
  have hhead : emitHead entry (phys entry) i (ramWord bytes entry i) κ =
      ⟨if (emitOne (ramWord bytes entry i) κ).val = .ok then some .none else none,
        (emitOne (ramWord bytes entry i) κ).code, (emitOne (ramWord bytes entry i) κ).gen⟩ := by
    simp only [emitHead, hc, bind_apply]
    cases (emitOne (ramWord bytes entry i) κ).val <;> simp
  rw [hhead] at hval hrest ⊢
  simp only [Option.ite_none_right_eq_some, Option.some.injEq] at hval
  obtain ⟨hst, rfl⟩ := hval
  obtain ⟨c', hx, hok₁⟩ := hem₁ hst
  refine .of_next (Nat.lt_succ_self i) hb' ?_ ((keeps_emitOne _ _).trans hcount) hrest hok₁
    (run_instrs_append hrun₁)
  have hplain : Plain (phys entry) (4 * i) (ramWord bytes entry i) := ⟨hc, κ, hst⟩
  simp [interpStep, hplain.execOne hw.code hx, pcAt_succ]

theorem Frag.matches_ret
    (hc : classifyControl (ramWord bytes entry i) (4 * i) (phys entry) = .ret) :
    F.Matches R ram i c code h := by
  obtain ⟨hb, hcount, p, rest, hval, rfl, hrest⟩ := hin
  have hhead : emitHead entry (phys entry) i (ramWord bytes entry i) κ = ⟨some .ret, [], κ⟩ := by
    simp only [emitHead, hc]
    rfl
  rw [hhead] at hval hrest ⊢
  cases hval
  obtain ⟨hjr, hra⟩ := jr_of_classify.1 hc
  obtain ⟨-, c', κ', h', rest', hx, htrans, hok', hcpu, -, -, -, hrun⟩ :=
    F.transfer_slot hb hw (by rw [hc]; simp) (by simp) hcount hrest hok
  -- the host reads `$ra` after the slot, the interpreter before it
  have h31 : h'.cpu.gpr 31#5 = c.gpr 31#5 := by
    rw [Sync.gpr_eq hcpu]
    exact hw.ra hjr hra c' hx
  refine .inl ⟨(h'.set32 .r0 (c.gpr 31#5)).setField .pc (c.gpr 31#5), ?_, ?_⟩
  · rw [interpStep_jr hw.code hjr (htrans _), hra]
    exact congrArg Outcome.leaves
      (congrArg (fun d : Cpu M => { d with pc := c.gpr 31#5 }) hcpu).symm
  · refine hrun.trans ?_
    have hload : (Op.mov32 .r0 (.mem (.gpr 31))).exec R h' = some (h'.set32 .r0 (c.gpr 31#5)) :=
      congrArg (fun v => some (h'.set32 .r0 v)) h31
    show Linear.run (exec R) (.instr (.op (.mov32 .r0 (.mem (.gpr 31)))) ::
      .instr (.op (.store32 .pc (.reg .r0))) :: .instr .ret :: rest') h' = _
    simp only [Linear.run, exec_op hload, exec_op (exec_store32 (.set32_self h' .r0 (c.gpr 31#5))),
      Option.bind_some]
    rfl

theorem Frag.matches_tailjump
    (hc : classifyControl (ramWord bytes entry i) (4 * i) (phys entry) = .tailjump) :
    F.Matches R ram i c code h := by
  obtain ⟨hb, hcount, p, rest, hval, rfl, hrest⟩ := hin
  have hwp : wp (exec R) (emitHead entry (phys entry) i _) _ κ h :=
    wp_emitHead_tailjump hc hok (F.refs i (show i < F.size by omega))
  obtain ⟨h₁, hrun₁, hp, hok₁⟩ := hwp
  rw [hp] at hval
  cases hval
  obtain ⟨-, c', κ', h', rest', hx, htrans, hok', hcpu, -, -, -, hrun⟩ :=
    F.transfer_slot hb hw (by rw [hc]; simp) (by simp) ((keeps_emitHead _).trans hcount) hrest hok₁
  have hstep := interpStep_jr hw.code (jr_of_classify.2 hc) (htrans _)
  generalize c.gpr (rsField (ramWord bytes entry i)) = target at hstep hok'
  refine .inl ⟨h'.setField .pc target, hstep.trans ?_, ?_⟩
  · exact congrArg Outcome.leaves (congrArg (fun d : Cpu M => { d with pc := target }) hcpu).symm
  · rw [run_instrs_append hrun₁]
    refine hrun.trans ?_
    show Linear.run (exec R) (.instr (.op (.store32 .pc (.reg .ctrl))) :: .instr .ret :: rest') h' = _
    simp only [Linear.run, exec_op (exec_store32 (.reg hok'.ctrl)), Option.bind_some]
    rfl

theorem Frag.matches_jump (hram : (phys entry).toNat + 4 * F.size ≤ ramSize)
    (hc : classifyControl (ramWord bytes entry i) (4 * i) (phys entry) = .jump t) :
    F.Matches R ram i c code h := by
  obtain ⟨hb, hcount, p, rest, hval, rfl, hrest⟩ := hin
  have hhead : emitHead entry (phys entry) i (ramWord bytes entry i) κ =
      ⟨some (.br (t / 4).toNat false), [], κ⟩ := by
    simp only [emitHead, hc]
    rfl
  rw [hhead] at hval hrest ⊢
  cases hval
  obtain ⟨hjr, ht, hexec⟩ := execOne_jump (R := R) (c := c) hw.code hc
  obtain ⟨h0, h4, hlt, -, htarget⟩ := F.target hb (.inr hc)
  obtain ⟨-, c', κ', h', rest', hx, htrans, hok', hcpu, -, -, -, hrun⟩ :=
    F.transfer_slot hb hw (by rw [hc]; simp) (by simp) hcount hrest hok
  have hpc : jumpTarget (pcAt entry i) (ramWord bytes entry i) = pcAt entry (t / 4).toNat := by
    refine jumpTarget_pcAt ht h0 hlt hb ?_ h4
    have hsz : ramSize = 2 ^ 21 := rfl
    omega
  have hstep : interpStep R ram (pcAt entry i, c) =
      .goOn (pcAt entry (t / 4).toNat, { c' with pc := pcAt entry (t / 4).toNat }) := by
    simp only [interpStep, hexec, htrans, hw.code, hjr, hpc]
    rfl
  exact .of_goto htarget hstep
    (congrArg (fun d : Cpu M => { d with pc := pcAt entry (t / 4).toNat }) hcpu) hok'.sync.zero hrun

theorem Frag.matches_branch
    (hc : classifyControl (ramWord bytes entry i) (4 * i) (phys entry) = .branch t) :
    F.Matches R ram i c code h := by
  obtain ⟨hb, hcount, p, rest, hval, rfl, hrest⟩ := hin
  have hwp : wp (exec R) (emitHead entry (phys entry) i _) _ κ h :=
    wp_emitHead_branch hc hok (F.refs i (show i < F.size by omega))
  obtain ⟨h₁, hrun₁, hp, hok₁⟩ := hwp
  rw [hp] at hval
  cases hval
  rw [branchTaken_linked hw.link] at hok₁
  obtain ⟨hjr, ht, hexec⟩ := execOne_branch (R := R) (c := c) hw.code hc
  obtain ⟨h0, h4, hlt, -, htarget⟩ := F.target hb (.inl hc)
  obtain ⟨hlast, c', κ', h', rest', hx, htrans, hok', hcpu, hcount', -, hem', hrun⟩ :=
    F.transfer_slot hb hw (by rw [hc]; simp) (by simp) ((keeps_emitHead _).trans hcount) hrest hok₁
  have hb' := F.succ_bound hb (by rw [hc]; simp)
  have hrun' := (run_instrs_append hrun₁).trans hrun
  have hjump : Linear.run (exec R) (.instr (.jumpIf (t / 4).toNat) :: rest') h' =
      if branchTaken (ramWord bytes entry i) c then
        some (.goto (t / 4).toNat, { h' with flags := none })
      else Linear.run (exec R) rest' { h' with flags := none } := by
    simp only [Linear.run, exec, hok'.ctrl, Option.map_some, Option.bind_some, ctrlFlag_eq_zero]
    cases branchTaken (ramWord bytes entry i) c <;> rfl
  have hrun'' := hrun'.trans hjump
  have hstep : ∀ j, (if branchTaken (ramWord bytes entry i) c then
        branchTarget (pcAt entry i) (ramWord bytes entry i) else pcAt entry i + 8) = pcAt entry j →
      interpStep R ram (pcAt entry i, c) = .goOn (pcAt entry j, { c' with pc := pcAt entry j }) := by
    intro j hj
    simp only [interpStep, hexec, htrans, hw.code, hjr, hj]
    rfl
  cases htaken : branchTaken (ramWord bytes entry i) c with
  | true =>
    rw [htaken, if_pos rfl] at hrun''
    rw [htaken] at hstep
    refine .of_goto htarget (hstep _ (branchTarget_pcAt ht h0 h4)) ?_ hok'.sync.zero hrun''
    exact congrArg (fun d : Cpu M => { d with pc := pcAt entry (t / 4).toNat }) hcpu
  | false =>
    rw [htaken, if_neg (by simp)] at hrun''
    rw [htaken] at hstep
    have hok'' : Ok F.used [] _ κ' { h' with flags := none } c' := hok'.congr (fun _ _ => rfl) rfl
    refine .of_next (by omega) ?_ (hstep (i + 2) (pcAt_add 2).symm) hcount' hem' (hok''.setPc _)
      hrun''
    omega

end

theorem Frag.simulates (hram : (phys entry).toNat + 4 * F.size ≤ ramSize) :
    Simulates (interpStep R ram) (exec R) F.code HState.cpu F.At
      fun t => StepOk R ram bytes t.1 t.2 := by
  rintro _ ⟨_, c⟩ code h ⟨i, κ, x, rfl, rfl, hin, hok⟩ hs
  have hw := hs.wordOk hin.bound hram
  show F.Matches R ram i c code h
  cases hc : classifyControl (ramWord bytes entry i) (4 * i) (phys entry) with
  | none => exact F.matches_plain hin hok hw hc
  | ret => exact F.matches_ret hin hok hw hc
  | tailjump => exact F.matches_tailjump hin hok hw hc
  | branch t => exact F.matches_branch hin hok hw hc
  | jump t => exact F.matches_jump hin hok hw hram hc
  | abort =>
    obtain ⟨-, -, p, rest, hval, -, -⟩ := hin
    simp only [emitHead, hc] at hval
    cases hval
  | call =>
    obtain ⟨hb, -, p, rest, hval, -, hrest⟩ := hin
    rw [emitHead_call hc] at hval
    cases hval
    rw [F.wordsFrom_cons (show i + 1 < F.size by omega)] at hrest
    obtain ⟨_, _, _, _, hword, -, -⟩ := F.emitFrom_cons hrest
    obtain ⟨hslot, -, -⟩ := F.emitWord_some hword
    exact absurd rfl (emitSlot_val hslot).2.1

theorem Frag.returns_iff (hram : (phys entry).toNat + 4 * F.size ≤ ramSize) (h0 : c.gpr 0#5 = 0#32)
    (hok : ∀ t, Reaches (interpStep R ram) (entry, c) t → StepOk R ram bytes t.1 t.2)
    : Returns R F.code c c' ↔ Linear.Leaves (interpStep R ram) (entry, c) c' := by
  have hstart : Ok F.used [] none F.start (HState.start c) c :=
    F.ok_of_blank F.blank rfl rfl rfl h0
  obtain ⟨κ, code, h, hin, hok₁, hrun⟩ := F.enter (R := R) F.scanned.bound rfl F.emitted hstart
  have hat : F.At (F.size - 0) (entry, c) code h := ⟨0, κ, none, pcAt_zero.symm, rfl, hin, hok₁⟩
  rw [← (F.simulates hram).exits_iff hat hok]
  simp [Returns, Exits.iff_of_run hrun]

end

/-- **The fragment does what the interpreter does.** In every run whose steps meet the condition, the
emitted code returns in the state in which control leaves the interpreted fragment, and returns only
then. -/
theorem fragment_agrees {T : Target} {bytes : Nat → BitVec 8} {code : List (Item Nat Instr)}
    {ram : M → Word → Word} {c : Cpu M} (hc : tryCompile T entry bytes ramSize 0 = some code)
    (h0 : c.gpr 0#5 = 0#32)
    (hok : ∀ t, Reaches (interpStep R ram) (entry, c) t → StepOk R ram bytes t.1 t.2)
    (c' : Cpu M) : Returns R code c c' ↔ Linear.Leaves (interpStep R ram) (entry, c) c' := by
  obtain ⟨F, rfl, hram⟩ := exists_frag hc
  exact Frag.returns_iff (F := F) hram h0 hok

end

/-- A RAM that starts with `words`. -/
def ramOf (words : List Word) (a : Nat) : BitVec 8 :=
  (words.getD (a / 4) 0#32 >>> (8 * (a % 4))).setWidth 8

def sixSaved : Target := ⟨6, by omega⟩

/-- The interpreter reading code from a RAM that never changes. -/
def romStep (bytes : Nat → BitVec 8) : Word × Cpu Word → Outcome (Word × Cpu Word) (Cpu Word) :=
  interpStep oneWord fun _ a => imgWord bytes a.toNat

/-- `lw $3, 0($zero); addu $3, $3, $1; beq $3, $2, X; nop; addiu $4, $zero, 1; X: jr $ra; nop` -/
def sumRam : Nat → BitVec 8 :=
  ramOf [0x8C030000#32, 0x00611821#32, 0x10620002#32, 0#32, 0x24040001#32, 0x03E00008#32, 0#32]

/-- The conditions at the words of that RAM do not depend on the registers. -/
theorem stepOk_sumRam {pc : Word} (h : pc = 0#32 ∨ pc = 4#32 ∨ pc = 8#32 ∨ pc = 20#32) (c : Cpu Word) :
    StepOk oneWord (fun _ a => imgWord sumRam a.toNat) sumRam pc c := by
  obtain rfl | rfl | rfl | rfl := h <;>
    refine ⟨rfl, fun _ => rfl, by decide, fun _ => by decide, fun hjr _ c' hc' => ?_,
      fun hlink => absurd hlink (by decide)⟩
  case inr.inr.inr =>
    cases hc'
    rfl
  all_goals exact absurd hjr (by decide)

set_option maxRecDepth 20000 in
/-- `2 + 5 = 7`: the branch over the `addiu` is taken. -/
theorem fragment_agrees_sum :
    ∃ code, tryCompile sixSaved 0 sumRam ramSize 0 = some code ∧
      ∀ c', Returns oneWord code { fiveSeven with mem := 2#32 } c' ↔
        Linear.Leaves (romStep sumRam) (0, { fiveSeven with mem := 2#32 }) c' := by
  have hsome : (tryCompile sixSaved 0 sumRam ramSize 0).isSome = true := by decide +kernel
  obtain ⟨code, hcode⟩ := Option.isSome_iff_exists.mp hsome
  refine ⟨code, hcode, fragment_agrees hcode rfl fun t ht => ?_⟩
  obtain rfl | ht := ht.of_goOn rfl
  · exact stepOk_sumRam (by decide) _
  obtain rfl | ht := ht.of_goOn rfl
  · exact stepOk_sumRam (by decide) _
  obtain rfl | ht := ht.of_goOn rfl
  · exact stepOk_sumRam (by decide) _
  cases ht.eq_of_leaves rfl
  exact stepOk_sumRam (by decide) _

set_option maxRecDepth 20000 in
/-- `jr $ra` with `addiu $ra, $zero, 4` in its slot returns to the new `$ra`. -/
theorem fragment_jr_ra_slot_disagrees :
    ∃ code c', tryCompile sixSaved 0 (ramOf [0x03E00008#32, 0x241F0004#32]) ramSize 0 = some code ∧
      Returns oneWord code (zeroCpu 0) c' ∧
      ¬ Linear.Leaves (romStep (ramOf [0x03E00008#32, 0x241F0004#32])) (0, zeroCpu 0) c' := by
  refine ⟨_, _, rfl, ⟨0, _, .ret rfl, rfl⟩, fun hl => ?_⟩
  have hleave : ∃ c', romStep (ramOf [0x03E00008#32, 0x241F0004#32]) (0, zeroCpu 0) = .leaves c' ∧
      c'.pc = 0#32 := ⟨_, rfl, rfl⟩
  obtain ⟨c', hleave, hpc⟩ := hleave
  rw [← hl.eq_of_leaves hleave] at hpc
  revert hpc
  decide

end PsxRecomp.Jit
