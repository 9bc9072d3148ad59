import PsxRecomp.Jit.Cache

/-!
# `Jit/EmitOne.lean` — the code of one instruction does what the interpreter does

One lemma per emitter; the register cache is used through its specifications only.
-/

set_option autoImplicit false

open Function

namespace PsxRecomp.Jit

open Linear Staged Option Helper Cpu
open Op hiding exec
open Gen (emit state modify)
open Instr (exec)

variable {M : Type} {R : Runtime M} {used : Finset Reg} {P : List Reg} {x : Option (BitVec 64)}
  {κ : GprCache} {h : HState M} {c : Cpu M} {Q : Unit → GprCache → HState M → Prop}

/-! ## 1. Operands and scratch registers -/

/-- The operand has the value, and only registers matter for it. -/
def Reads (h : HState M) (a : Opnd) (v : Word) : Prop :=
  ∀ h' : HState M, h'.reg = h.reg → h'.val32 a = some v

variable {v : Word} {a : Opnd}

theorem Reads.val (ha : Reads h a v) : h.val32 a = some v := ha h rfl

variable {h' : HState M}

theorem Reads.congr (ha : Reads h a v) (hreg : h'.reg = h.reg) : Reads h' a v :=
  fun h'' hr => ha h'' (hr.trans hreg)

theorem Reads.imm (h : HState M) (w : Word) : Reads h (.imm w) w := fun _ _ => rfl

variable {r : HReg}

theorem Reads.reg (hr : h.reg r = some (v.setWidth 64)) :
    Reads h (.reg r) v := by
  intro h' hreg
  simp [HState.val32, hreg, hr]

variable {n : Reg}

theorem Holds.reads (ha : Holds κ a n) (hs : Sync none κ h c) :
    Reads h a (c.gpr n) :=
  fun _ hr => (ha.val_congr hr).trans (ha.val hs)

/-- The registers emitted code may use between two accesses of the cache. -/
def HReg.scratch : HReg → Bool
  | .r0 | .r1 | .r2 => true
  | _ => false

theorem Ok.congr (hok : Ok used P x κ h c)
    (hreg : ∀ r : HReg, r.scratch = false → h'.reg r = h.reg r) (hcpu : h'.cpu = h.cpu) :
    Ok used P x κ h' c :=
  ⟨hok.sync.congr (fun k => hreg (.slot k) rfl) hcpu, hok.wf, (hreg .ctrl rfl).trans hok.ctrl⟩

theorem Ok.set64 (hok : Ok used P x κ h c) (hr : r.scratch = true) (v : BitVec 64) :
    Ok used P x κ (h.set64 r v) c := by
  refine hok.congr (fun q hq => ?_) rfl
  have hne : q ≠ r := by
    rintro rfl
    rw [hr] at hq
    cases hq
  exact update_of_ne hne _ _

@[simp] theorem set64_reg_self (h : HState M) (r : HReg) (v : BitVec 64) :
    (h.set64 r v).reg r = some v :=
  Function.update_self _ _ _

theorem set64_reg_ne {q : HReg} (hne : q ≠ r) (h : HState M) (v : BitVec 64) :
    (h.set64 r v).reg q = h.reg q :=
  update_of_ne hne _ _

theorem Reads.set32_self (h : HState M) (r : HReg) (v : Word) : Reads (h.set32 r v) (.reg r) v :=
  .reg (set64_reg_self h r _)

theorem Reads.set64_ne {q : HReg} (ha : Reads h (.reg r) v) (hne : r ≠ q)
    (w : BitVec 64) : Reads (h.set64 q w) (.reg r) v := by
  intro h' hr
  have hv := ha.val
  simp only [HState.val32] at hv ⊢
  rw [hr, set64_reg_ne hne, hv]

theorem wp_asReg {Q : Opnd → GprCache → HState M → Prop} (hok : Ok used P x κ h c) (ha : Reads h a v)
    (hQ : ∀ a' h', Ok used P x κ h' c → Reads h' a' v → (∀ r, r ≠ .r0 → h'.reg r = h.reg r) →
      Q a' κ h') : wp (exec R) (asReg a .r0) Q κ h := by
  unfold asReg
  split
  case h_1 w =>
    have hw : w = v := some.inj ha.val
    subst hw
    refine wp_bind (wp_emitOp rfl (wp_pure ?_))
    exact hQ _ _ (hok.set64 rfl _) (.set32_self h .r0 w) fun r hr => set64_reg_ne hr h _
  case h_2 => exact wp_pure (hQ _ _ hok ha fun _ _ => rfl)

variable {b : Opnd}

theorem wp_notBothImm {Q : Opnd → GprCache → HState M → Prop}
    (hok : Ok used P x κ h c) (ha : Reads h a v)
    (hQ : ∀ a' h', Ok used P x κ h' c → Reads h' a' v → Q a' κ h') :
    wp (exec R) (notBothImm a b) Q κ h := by
  unfold notBothImm
  split
  · exact wp_asReg hok ha fun a' h' hok' ha' _ => hQ a' h' hok' ha'
  · exact wp_pure (hQ _ _ hok ha)

def Uses (used : Finset Reg) (n : Reg) : Prop := n ≠ 0#5 → n ∈ used

/-- What an emitter leaves: a state that stands for `c'`, nothing pinned. -/
def Leaves {α : Type} (used : Finset Reg) (x : Option (BitVec 64)) (c' : Cpu M) :
    α → GprCache → HState M → Prop :=
  fun _ κ h => Ok used [] x κ h c'

variable {d : HReg} {o : Op}

theorem wp_finish (hd : Dst used P x n d κ h c) (ho : o.exec R h = some (h.set32 d v)) :
    wp (exec R) (do emitOp o; gprUnpin) (Leaves used x (c.writeBack n v)) κ h :=
  wp_bind (wp_emitOp ho (wp_gprUnpin (hd.write v) fun _ hok => hok))

variable {u : Word}

theorem exec_op32 {o : Op32} {w : Word} (ha : Reads h a u)
    (hb : Reads h b v) (ho : o.apply u v = some w) :
    (Op.op32 o d a b).exec R h = some (h.set32 d w) := by
  simp [Op.exec, ha.val, hb.val, ho]

theorem exec_mov32 (ha : Reads h a v) : (Op.mov32 d a).exec R h = some (h.set32 d v) := by
  simp [Op.exec, ha.val]

theorem exec_movExt {e : Ext} (ha : Reads h a v) :
    (Op.movExt e d a).exec R h = some (h.set64 d (e.apply v)) := by
  simp [Op.exec, ha.val]

theorem exec_cmp32 (ha : Reads h a u) (hb : Reads h b v) :
    (Op.cmp32 a b).exec R h = some { h with flags := some (u, v) } := by
  simp [Op.exec, ha.val, hb.val]

/-! ## 2. Arithmetic -/

variable {op : Op32} {cc : Cond}

section
variable {rd rs rt : Reg}

/-- The shifts by a constant and the logical operations with one. -/
theorem wp_immOp {imm : Word} (hok : Ok used P x κ h c) (hP : P.length ≤ 1)
    (hn : Uses used n) (hrd : Uses used rd) (hop : op.apply (c.gpr n) imm = some v) :
    wp (exec R) (do
      let a ← gprSrc n
      let a ← asReg a .r0
      let d ← gprDst rd
      emitOp (.op32 op d a (.imm imm))
      gprUnpin) (Leaves used x (c.writeBack rd v)) κ h := by
  refine wp_bind (wp_gprSrc hok hP hn ?_)
  intro a κ₁ h₁ hok₁ ha _ _
  refine wp_bind (wp_asReg hok₁ (ha.reads hok₁.sync) ?_)
  intro a' h₂ hok₂ ha' _
  refine wp_bind (wp_gprDst hok₂ (Nat.succ_le_succ hP) hrd ?_)
  intro d κ₃ h₃ hd hsame
  exact wp_finish hd (exec_op32 (ha'.congr hsame.reg) (.imm _ _) hop)

theorem wp_setLess (hd : Dst used P x rd d κ h c) (ha : Reads h a u) (hb : Reads h b v) :
    wp (exec R) (do emitOp (.cmp32 a b); emitOp (.setFlag d cc); gprUnpin)
      (Leaves used x (c.writeBack rd (flag (cc.holds u v)))) κ h :=
  wp_bind (wp_emitOp (exec_cmp32 ha hb) (wp_finish ⟨hd.wf, hd.ctrl, hd.ne_ctrl, hd.sync⟩ rfl))

/-- The second operand of `emit_slt`. -/
def secondVal (c : Cpu M) : Reg ⊕ Word → Word
  | .inl rt => c.gpr rt
  | .inr w => w

section
variable (hok : Ok used [] x κ h c) (hrs : Uses used rs) (hrt : Uses used rt) (hrd : Uses used rd)
include hok hrs hrt hrd

theorem wp_twoOperands {k : Opnd → Opnd → HReg → Emit Unit}
    (hk : ∀ a b d κ' h', Dst used [rt, rs] x rd d κ' h' c → Reads h' a (c.gpr rs) →
      Reads h' b (c.gpr rt) → wp (exec R) (k a b d) Q κ' h') :
    wp (exec R) (do
      let a ← gprSrc rs
      let b ← gprSrc rt
      let a ← notBothImm a b
      let d ← gprDst rd
      k a b d) Q κ h := by
  refine wp_bind (wp_gprSrc hok (by simp) hrs ?_)
  intro a κ₁ h₁ hok₁ ha _ _
  refine wp_bind (wp_gprSrc hok₁ (by simp) hrt ?_)
  intro b κ₂ h₂ hok₂ hb hkeep _
  refine wp_bind (wp_notBothImm hok₂ ((hkeep a rs ha).reads hok₂.sync) ?_)
  intro a' h₃ hok₃ ha'
  refine wp_bind (wp_gprDst hok₃ (by simp) hrd ?_)
  intro d κ₄ h₄ hd hsame
  exact hk _ _ _ _ _ hd (ha'.congr hsame.reg) ((hb.reads hok₃.sync).congr hsame.reg)

theorem wp_emitAluRR (hop : op.apply (c.gpr rs) (c.gpr rt) = some v) :
    wp (exec R) (emitAluRR op rd rs rt) (Leaves used x (c.writeBack rd v)) κ h :=
  wp_twoOperands hok hrs hrt hrd fun _ _ _ _ _ hd ha hb => wp_finish hd (exec_op32 ha hb hop)

theorem wp_emitNor :
    wp (exec R) (emitNor rd rs rt)
      (Leaves used x (c.writeBack rd (~~~(c.gpr rs ||| c.gpr rt)))) κ h := by
  refine wp_twoOperands hok hrs hrt hrd fun a b d κ₄ h₄ hd ha hb => ?_
  refine wp_bind (wp_emitOp (exec_op32 ha hb rfl) ?_)
  -- the destination is written twice; the second write is the one that counts
  have hd' : Dst used [rt, rs] x rd d κ₄ (h₄.set32 d (c.gpr rs ||| c.gpr rt)) c := by
    refine ⟨hd.wf, ?_, hd.ne_ctrl, fun v f => ?_⟩
    · exact (set64_reg_ne hd.ne_ctrl.symm h₄ _).trans hd.ctrl
    · have := hd.sync v f
      simpa [HState.set32, HState.set64] using this
  refine wp_finish hd' ?_
  refine exec_op32 (.set32_self h₄ d _) (.imm _ _) ?_
  simp only [Op32.apply, some.injEq]
  exact BitVec.xor_allOnes

theorem wp_emitShiftVar (hop : op.apply (c.gpr rt) (c.gpr rs &&& 31) = some v) :
    wp (exec R) (emitShiftVar op rd rt rs) (Leaves used x (c.writeBack rd v)) κ h := by
  refine wp_bind (wp_gprSrc hok (by simp) hrs ?_)
  intro b κ₁ h₁ hok₁ hb _ _
  split
  case h_1 w =>
    have hw : w = c.gpr rs := some.inj (hb.val hok₁.sync)
    subst hw
    exact wp_immOp hok₁ (by simp) hrt hrd hop
  case h_2 =>
    refine wp_bind (wp_emitOp (exec_op32 (hb.reads hok₁.sync) (.imm _ _) rfl) ?_)
    refine wp_bind (wp_gprSrc (hok₁.set64 rfl _) (by simp) hrt ?_)
    intro a κ₂ h₂ hok₂ ha _ hscratch
    refine wp_bind (wp_asReg hok₂ (ha.reads hok₂.sync) ?_)
    intro a' h₃ hok₃ ha' hr0
    refine wp_bind (wp_gprDst hok₃ (by simp) hrd ?_)
    intro d κ₄ h₄ hd hsame
    -- the count has been in R1 since before the other operand was loaded
    have hcount : h₄.reg .r1 = some ((c.gpr rs &&& 31).setWidth 64) := by
      rw [hsame.reg, hr0 _ (by decide), hscratch _ rfl]
      exact set64_reg_self _ _ _
    exact wp_finish hd (exec_op32 (ha'.congr hsame.reg) (.reg hcount) hop)

end

theorem wp_emitSlt {second : Reg ⊕ Word} (hok : Ok used [] x κ h c)
    (hrs : Uses used rs) (hrd : Uses used rd) (hsec : ∀ rt, second = .inl rt → Uses used rt) :
    wp (exec R) (emitSlt cc rd rs second)
      (Leaves used x (c.writeBack rd (flag (cc.holds (c.gpr rs) (secondVal c second))))) κ h := by
  cases second with
  | inl rt =>
    exact wp_twoOperands hok hrs (hsec rt rfl) hrd fun _ _ _ _ _ hd ha hb => wp_setLess hd ha hb
  | inr w =>
    refine wp_bind (wp_gprSrc hok (by simp) hrs ?_)
    intro a κ₁ h₁ hok₁ ha _ _
    refine wp_bind (wp_pure (wp_bind (wp_notBothImm hok₁ (ha.reads hok₁.sync) ?_)))
    intro a' h₂ hok₂ ha'
    refine wp_bind (wp_gprDst hok₂ (by simp) hrd ?_)
    intro d κ₃ h₃ hd hsame
    exact wp_setLess hd (ha'.congr hsame.reg) (.imm _ _)

theorem wp_emitMove {s : Opnd} (hok : Ok used [] x κ h c) (hrd : Uses used rd)
    (hs : ∀ h' : HState M, SameButGpr h h' → h'.val32 s = some v) :
    wp (exec R) (emitMove rd s) (Leaves used x (c.writeBack rd v)) κ h := by
  refine wp_bind (wp_gprDst hok (by simp) hrd ?_)
  intro d κ₁ h₁ hd hsame
  have hmov : (mov32 d s).exec R h₁ = some (h₁.set32 d v) := by
    simp [Op.exec, hs h₁ hsame]
  exact wp_emitOp hmov (hd.write v)

theorem wp_emitAddi {simm : Word} (hok : Ok used [] x κ h c) (hrs : Uses used rs)
    (hrt : Uses used rt) :
    wp (exec R) (emitAddi rt rs simm) (Leaves used x (c.writeBack rt (c.gpr rs + simm))) κ h := by
  refine wp_bind (wp_gprSrc hok (by simp) hrs ?_)
  intro a κ₁ h₁ hok₁ ha _ _
  refine wp_bind (wp_gprDst hok₁ (by simp) hrt ?_)
  intro d κ₂ h₂ hd hsame
  have hread : Reads h₂ a (c.gpr rs) := (ha.reads hok₁.sync).congr hsame.reg
  split
  case h_1 w =>
    have hw : w = c.gpr rs := some.inj hread.val
    subst hw
    exact wp_finish hd rfl
  case h_2 => exact wp_finish hd (exec_op32 hread (.imm _ _) rfl)

end

/-! ## 3. `HI` and `LO` -/

variable {c' : Cpu M}

theorem Ok.rest_update (hok : Ok used P x κ h c)
    (hreg : ∀ r : HReg, r.scratch = false → h'.reg r = h.reg r) (hg : h'.cpu.gpr = h.cpu.gpr)
    (hg' : c'.gpr = c.gpr) (hrest : { h'.cpu with gpr := c'.gpr, pc := c'.pc } = c') :
    Ok used P x κ h' c' where
  sync := {
    cached := by
      intro k s n hk hn he
      rw [hreg (.slot k) rfl, hg, hg']
      exact hok.sync.cached hk hn he
    uncached := by
      intro n he hu
      rw [hg, hg']
      exact hok.sync.uncached he hu
    rest := hrest
    zero := by
      rw [hg']
      exact hok.sync.zero }
  wf := hok.wf
  ctrl := (hreg .ctrl rfl).trans hok.ctrl

theorem Ok.setHi (hok : Ok used P x κ h c) (v : Word) :
    Ok used P x κ (h.setField .hi v) { c with hi := v } :=
  hok.rest_update (fun _ _ => rfl) rfl rfl
    (congrArg (fun d : Cpu M => { d with hi := v }) hok.sync.rest)

theorem Ok.setLo (hok : Ok used P x κ h c) (v : Word) :
    Ok used P x κ (h.setField .lo v) { c with lo := v } :=
  hok.rest_update (fun _ _ => rfl) rfl rfl
    (congrArg (fun d : Cpu M => { d with lo := v }) hok.sync.rest)

theorem exec_store32 {f : Field} (ha : Reads h a v) :
    (Op.store32 f a).exec R h = some (h.setField f v) := by
  simp [Op.exec, ha.val]

section
variable {rs rt : Reg}

theorem wp_emitMoveTo {f : Field} (hok : Ok used [] x κ h c) (hrs : Uses used rs)
    (hf : ∀ P κ' h', Ok used P x κ' h' c → Ok used P x κ' (h'.setField f (c.gpr rs)) c') :
    wp (exec R) (emitMoveTo f rs) (Leaves used x c') κ h := by
  refine wp_bind (wp_gprSrc hok (by simp) hrs ?_)
  intro a κ₁ h₁ hok₁ ha _ _
  refine wp_bind (wp_asReg hok₁ (ha.reads hok₁.sync) ?_)
  intro a' h₂ hok₂ ha' _
  exact wp_bind (wp_emitOp (exec_store32 ha')
    (wp_gprUnpin (hf _ _ _ hok₂) fun _ hok' => hok'))

theorem Reads.reg_low {w : BitVec 64} (hr : h.reg r = some w) :
    Reads h (.reg r) (w.setWidth 32) := by
  intro h' hreg
  simp [HState.val32, hreg, hr]

/-- A piece of division code has set `hi` and `lo` and used scratch registers only. -/
structure SetsHiLo (h h' : HState M) (hi lo : Word) : Prop where
  reg : ∀ r : HReg, r.scratch = false → h'.reg r = h.reg r
  cpu : h'.cpu = { h.cpu with hi := hi, lo := lo }

theorem Ok.setHiLo (hok : Ok used P x κ h c) {hi lo : Word}
    (hs : SetsHiLo h h' hi lo) : Ok used P x κ h' { c with hi := hi, lo := lo } := by
  refine hok.rest_update hs.reg (by rw [hs.cpu]) rfl ?_
  rw [hs.cpu]
  exact congrArg (fun d : Cpu M => { d with hi := hi, lo := lo }) hok.sync.rest

theorem update_scratch {α : Type} {f g : HReg → α} {v : α} (hr : r.scratch = true)
    (hfg : ∀ q : HReg, q.scratch = false → f q = g q) :
    ∀ q : HReg, q.scratch = false → Function.update f r v q = g q := by
  intro q hq
  have hne : q ≠ r := by
    rintro rfl
    rw [hr] at hq
    cases hq
  rw [update_of_ne hne]
  exact hfg q hq

theorem execOps_cons {os : List Op} {r : Option (HState M)}
    (ho : o.exec R h = some h') (hr : execOps R os h' = r) : execOps R (o :: os) h = r := by
  rw [execOps, ho, bind_some, hr]

theorem execSelect_arm {w : Word} {ops els : List Op}
    {arms : List ((Cond × HReg × Word) × List Op)} (hv : Reads h (.reg r) v) :
    execSelect R (((cc, r, w), ops) :: arms) els h =
      if cc.holds v w then execOps R ops h else execSelect R arms els h := by
  rw [execSelect, hv.val, bind_some]

theorem execOps_divResult {q r : Word} (ho : o.exec R h = some ((h.set32 .r0 q).set32 .r1 r)) :
    ∃ h', execOps R (divResult o) h = some h' ∧ SetsHiLo h h' r q := by
  have hr0 : Reads ((h.set32 .r0 q).set32 .r1 r) (.reg .r0) q :=
    .reg ((set64_reg_ne (by decide) _ _).trans (set64_reg_self _ _ _))
  have hr1 : Reads (((h.set32 .r0 q).set32 .r1 r).setField .lo q) (.reg .r1) r :=
    (Reads.set32_self (h.set32 .r0 q) .r1 r).congr rfl
  refine ⟨_, execOps_cons ho (execOps_cons (exec_store32 hr0)
    (execOps_cons (exec_store32 hr1) rfl)), ?_, rfl⟩
  exact update_scratch rfl (update_scratch rfl fun _ _ => rfl)

variable (hok : Ok used [] x κ h c) (hrs : Uses used rs) (hrt : Uses used rt)
include hok hrs hrt

/-- Both operands into scratch registers, by a move that makes `val` of them. -/
theorem wp_intoScratch {k : Emit Unit}
    {mov : HReg → Opnd → Op} {val : Word → BitVec 64}
    (hmov : ∀ {h : HState M} {d a v}, Reads h a v → (mov d a).exec R h = some (h.set64 d (val v)))
    (hk : ∀ κ' h', Ok used [rt, rs] x κ' h' c → h'.reg .r0 = some (val (c.gpr rs)) →
      h'.reg .r1 = some (val (c.gpr rt)) → wp (exec R) k Q κ' h') :
    wp (exec R) (do
      let a ← gprSrc rs
      emitOp (mov .r0 a)
      let b ← gprSrc rt
      emitOp (mov .r1 b)
      k) Q κ h := by
  refine wp_bind (wp_gprSrc hok (by simp) hrs ?_)
  intro a κ₁ h₁ hok₁ ha _ _
  refine wp_bind (wp_emitOp (hmov (ha.reads hok₁.sync)) ?_)
  refine wp_bind (wp_gprSrc (hok₁.set64 rfl _) (by simp) hrt ?_)
  intro b κ₂ h₂ hok₂ hb _ hscratch
  refine wp_bind (wp_emitOp (hmov (hb.reads hok₂.sync)) ?_)
  refine hk _ _ (hok₂.set64 rfl _) ((set64_reg_ne (by decide) h₂ _).trans ?_) (set64_reg_self _ _ _)
  exact (hscratch .r0 rfl).trans (set64_reg_self _ _ _)

theorem wp_emitMult {e : Ext} :
    wp (exec R) (emitMult e rs rt) (Leaves used x
      { c with
        lo := (e.apply (c.gpr rs) * e.apply (c.gpr rt)).setWidth 32
        hi := ((e.apply (c.gpr rs) * e.apply (c.gpr rt)) >>> 32).setWidth 32 }) κ h := by
  refine wp_intoScratch hok hrs hrt (fun ha => exec_movExt ha) fun κ₂ h₂ hok₂ hr0 hr1 => ?_
  refine wp_bind (wp_gprUnpin hok₂ fun κ₃ hok₃ => ?_)
  generalize e.apply (c.gpr rs) = u at hr0 ⊢
  generalize e.apply (c.gpr rt) = w at hr1 ⊢
  have hmul : (mul .r0 .r0 .r1).exec R h₂ = some (h₂.set64 .r0 (u * w)) := by
    simp [Op.exec, hr0, hr1]
  refine wp_bind (wp_emitOp hmul ?_)
  generalize hm : h₂.set64 .r0 (u * w) = h₄
  have hok₄ : Ok used [] x κ₃ h₄ c := hm ▸ hok₃.set64 rfl _
  have hprod : h₄.reg .r0 = some (u * w) := hm ▸ set64_reg_self _ _ _
  refine wp_bind (wp_emitOp (exec_store32 (.reg_low hprod)) ?_)
  have hshift : (lshr .r0 .r0 32).exec R (h₄.setField .lo ((u * w).setWidth 32)) =
      some ((h₄.setField .lo ((u * w).setWidth 32)).set64 .r0 ((u * w) >>> 32)) := by
    simp [Op.exec, HState.setField, hprod]
  refine wp_bind (wp_emitOp hshift ?_)
  refine wp_emitOp (exec_store32 (.reg_low (set64_reg_self _ _ _))) ?_
  exact ((hok₄.setLo _).set64 rfl _).setHi _

/-- The division code computes `f` of its operands: whatever arm it selects sets `hi` and `lo` so. -/
theorem wp_divide {arms : List ((Cond × HReg × Word) × List Op)} {els : List Op}
    {f : Word → Word → Word × Word}
    (hsel : ∀ h' a b, Reads h' (.reg .r0) a → Reads h' (.reg .r1) b →
      ∃ h'', execSelect R arms els h' = some h'' ∧ SetsHiLo h' h'' (f a b).1 (f a b).2) :
    wp (exec R) (do
      emitDivOperands rs rt
      emit (.select arms els)) (Leaves used x
      { c with hi := (f (c.gpr rs) (c.gpr rt)).1, lo := (f (c.gpr rs) (c.gpr rt)).2 }) κ h := by
  refine wp_bind (wp_intoScratch hok hrs hrt (fun ha => exec_mov32 ha) fun κ₂ h₂ hok₂ hr0 hr1 => ?_)
  refine wp_gprUnpin hok₂ fun κ₃ hok₃ => ?_
  obtain ⟨h'', hx, hset⟩ := hsel _ _ _ (.reg hr0) (.reg hr1)
  exact wp_emit (by simp only [Instr.exec, hx, map_some]) (hok₃.setHiLo hset)

theorem wp_emitDiv :
    wp (exec R) (emitDiv rs rt) (Leaves used x
      { c with
        hi := (divHiLo (c.gpr rs) (c.gpr rt)).1
        lo := (divHiLo (c.gpr rs) (c.gpr rt)).2 }) κ h := by
  refine wp_divide hok hrs hrt fun h' a b ha hb => ?_
  rw [execSelect_arm hb, execSelect_arm ha, execSelect_arm hb]
  by_cases h0 : b = 0#32
  · -- lo = 2 * (a < 0) - 1
    subst h0
    have hlo : divHiLo a 0#32 = (a, flag (a.slt 0#32) <<< 1 - 1#32) := by
      unfold divHiLo flag
      cases a.slt 0#32 <;> rfl
    rw [hlo, if_pos (by rfl)]
    refine ⟨_, execOps_cons (exec_cmp32 ha (.imm _ _)) (execOps_cons rfl
      (execOps_cons (exec_op32 (.set32_self _ _ _) (.imm _ _) rfl)
      (execOps_cons (exec_op32 (.set32_self _ _ _) (.imm _ _) rfl)
      (execOps_cons (exec_store32 (.set32_self _ _ _))
      (execOps_cons (exec_store32 ?_) rfl))))), ?_, rfl⟩
    · have ha' : Reads { h' with flags := some (a, 0#32) } (.reg .r0) a := ha.congr rfl
      exact (((ha'.set64_ne (by decide) _).set64_ne (by decide) _).set64_ne (by decide) _).congr rfl
    · exact update_scratch rfl (update_scratch rfl (update_scratch rfl fun _ _ => rfl))
  · rw [if_neg (by simpa [Cond.holds] using h0)]
    by_cases hov : a = 0x80000000#32 ∧ b = -1
    · obtain ⟨rfl, rfl⟩ := hov
      rw [if_neg (by decide), if_neg (by decide)]
      exact ⟨_, execOps_cons rfl (execOps_cons rfl rfl), fun _ _ => rfl, rfl⟩
    · -- one of the two compares leads to the division
      have hdiv : divHiLo a b = (a.srem b, a.sdiv b) := by
        rw [divHiLo, if_neg h0, if_neg hov]
      have hdivmod : divmodS32.exec R h' =
          some ((h'.set32 .r0 (a.sdiv b)).set32 .r1 (a.srem b)) := by
        simp only [Op.exec, ha.val, hb.val, bind_some]
        rw [if_neg (by tauto)]
      rw [hdiv]
      by_cases hmin : a = 0x80000000#32
      · have hm1 : b ≠ -1 := fun h => hov ⟨hmin, h⟩
        rw [if_neg (by simp [Cond.holds, hmin]), if_pos (by simpa [Cond.holds] using hm1)]
        exact execOps_divResult hdivmod
      · rw [if_pos (by simpa [Cond.holds] using hmin)]
        exact execOps_divResult hdivmod

theorem wp_emitDivu :
    wp (exec R) (emitDivu rs rt) (Leaves used x
      { c with
        hi := (divuHiLo (c.gpr rs) (c.gpr rt)).1
        lo := (divuHiLo (c.gpr rs) (c.gpr rt)).2 }) κ h := by
  refine wp_divide hok hrs hrt fun h' a b ha hb => ?_
  rw [execSelect_arm hb]
  by_cases h0 : b = 0#32
  · subst h0
    exact ⟨_, execOps_cons rfl (execOps_cons (exec_store32 (ha.congr rfl)) rfl), fun _ _ => rfl, rfl⟩
  · have hdivmod : divmodU32.exec R h' =
        some ((h'.set32 .r0 (a / b)).set32 .r1 (a % b)) := by
      simp [Op.exec, ha.val, hb.val, bind_some, if_neg h0]
    rw [if_neg (by simpa [Cond.holds] using h0), divuHiLo, if_neg h0]
    exact execOps_divResult hdivmod

end

/-! ## 4. Memory -/

theorem Sync.mem_eq {e : Option Reg} (hs : Sync e κ h c) : h.cpu.mem = c.mem := by
  have := congrArg mem hs.rest
  exact this

variable {d' : Cpu M}

section
variable {rs rt : Reg} {simm : Word}

theorem wp_emitAddr {base : Word} (hok : Ok used P x κ h c) (ha : Reads h a base)
    (hQ : ∀ h', Ok used P x κ h' c → Reads h' (.reg .r0) (base + simm) → Q () κ h') :
    wp (exec R) (emitAddr a simm) Q κ h := by
  refine wp_bind (wp_emitOp (exec_mov32 ha) ?_)
  split
  case isTrue h0 =>
    refine wp_pure (hQ _ (hok.set64 rfl _) ?_)
    rw [h0, BitVec.add_zero]
    exact .set32_self _ _ _
  case isFalse _ =>
    refine wp_emitOp (exec_op32 (.set32_self _ _ _) (.imm _ _) rfl) ?_
    exact hQ _ ((hok.set64 rfl _).set64 rfl _) (.set32_self _ _ _)

/-- What a load leaves in `R0`. -/
def loaded (ext : Option Ext) (v : Word) : Word :=
  match ext with
  | some e => (e.apply v).setWidth 32
  | none => v

theorem ReadFn.call_cpu (f : ReadFn) (addr : Word) (d : Cpu M) :
    (f.call R addr d).2 = { d with mem := (f.call R addr d).2.mem } := by
  cases f <;> rfl

theorem ReadFn.call_congr (f : ReadFn) (addr : Word) {d : Cpu M} (hm : d.mem = d'.mem) :
    (f.call R addr d).1 = (f.call R addr d').1 ∧
      (f.call R addr d).2.mem = (f.call R addr d').2.mem := by
  cases f <;> simp [ReadFn.call, readByte, readHalf, readWord, hm]

theorem Ok.call (hok : Ok used P x κ h c) {d : Cpu M} {m : M} (hd : d = { h.cpu with mem := m })
    (hd' : d' = { c with mem := m }) (v : Option Word) : Ok used P x κ (h.afterCall d v) d' := by
  subst hd hd'
  refine hok.rest_update (fun r hr => ?_) rfl rfl ?_
  · cases r <;> first | rfl | cases hr
  · exact congrArg (fun d : Cpu M => { d with mem := m }) hok.sync.rest

theorem Ok.read (hok : Ok used P x κ h c) (f : ReadFn) (addr : Word) (v : Option Word) :
    Ok used P x κ (h.afterCall (f.call R addr h.cpu).2 v) (f.call R addr c).2 := by
  refine hok.call ?_ (f.call_cpu addr c) v
  rw [← (f.call_congr addr hok.sync.mem_eq).2]
  exact f.call_cpu addr h.cpu

theorem wp_emitLoad {f : ReadFn} {ext : Option Ext} (hok : Ok used [] x κ h c)
    (hrs : Uses used rs) (hrt : Uses used rt) :
    wp (exec R) (emitLoad f ext rt rs simm) (Leaves used x
      ((f.call R (c.gpr rs + simm) c).2.writeBack rt
        (loaded ext (f.call R (c.gpr rs + simm) c).1))) κ h := by
  refine wp_bind (wp_gprSrc hok (by simp) hrs ?_)
  intro a κ₁ h₁ hok₁ ha _ _
  refine wp_bind (wp_emitAddr hok₁ (ha.reads hok₁.sync) ?_)
  intro h₂ hok₂ haddr
  generalize c.gpr rs + simm = addr at haddr ⊢
  have hcall : (icallRead f).exec R h₂ = some
      (h₂.afterCall (f.call R addr h₂.cpu).2 (some (f.call R addr h₂.cpu).1)) := by
    simp [Op.exec, haddr.val, map_some]
  rw [(f.call_congr addr hok₂.sync.mem_eq).1] at hcall
  have hok₃ := hok₂.read (R := R) f addr (some (f.call R addr c).1)
  generalize f.call R addr c = res at hcall hok₃ ⊢
  refine wp_bind (wp_emitOp hcall ?_)
  -- from here on the value is in R0
  have hend : ∀ h', Ok used [rs] x κ₁ h' res.2 → Reads h' (.reg .r0) (loaded ext res.1) →
      wp (exec R) (do
        let d ← gprDst rt
        emitOp (.mov32 d (.reg .r0))
        gprUnpin) (Leaves used x (res.2.writeBack rt (loaded ext res.1))) κ₁ h' := by
    intro h' hok' hv
    refine wp_bind (wp_gprDst hok' (by simp) hrt ?_)
    intro d κ₄ h₄ hd hsame
    exact wp_finish hd (exec_mov32 (hv.congr hsame.reg))
  have hres : Reads (h₂.afterCall (f.call R addr h₂.cpu).2 (some res.1)) (.reg .r0) res.1 :=
    .reg rfl
  cases ext with
  | none => exact hend _ hok₃ hres
  | some e =>
    refine wp_bind (wp_emitOp (exec_movExt hres) (hend _ (hok₃.set64 rfl _) ?_))
    exact .reg_low (set64_reg_self _ _ _)

theorem WriteFn.call_cpu (f : WriteFn) (addr v : Word) (d : Cpu M) :
    f.call R addr v d = { d with mem := (f.call R addr v d).mem } := by
  cases f <;> rfl

theorem WriteFn.call_congr (f : WriteFn) (addr v : Word) {d : Cpu M} (hm : d.mem = d'.mem) :
    (f.call R addr v d).mem = (f.call R addr v d').mem := by
  cases f <;> simp [WriteFn.call, writeByte, writeHalf, writeWord, hm]

theorem Ok.write (hok : Ok used P x κ h c) (f : WriteFn) (addr v : Word) :
    Ok used P x κ (h.afterCall (f.call R addr v h.cpu) none) (f.call R addr v c) := by
  refine hok.call ?_ (f.call_cpu addr v c) none
  rw [← f.call_congr addr v hok.sync.mem_eq]
  exact f.call_cpu addr v h.cpu

theorem wp_emitStore {f : WriteFn} (hok : Ok used [] x κ h c) (hrs : Uses used rs)
    (hrt : Uses used rt) :
    wp (exec R) (emitStore f rt rs simm)
      (Leaves used x (f.call R (c.gpr rs + simm) (c.gpr rt) c)) κ h := by
  refine wp_bind (wp_gprSrc hok (by simp) hrs ?_)
  intro a κ₁ h₁ hok₁ ha _ _
  refine wp_bind (wp_emitAddr hok₁ (ha.reads hok₁.sync) ?_)
  intro h₂ hok₂ haddr
  refine wp_bind (wp_gprSrc hok₂ (by simp) hrt ?_)
  intro b κ₃ h₃ hok₃ hb _ hscratch
  refine wp_bind (wp_emitOp (exec_mov32 (hb.reads hok₃.sync)) ?_)
  have haddr' : Reads (h₃.set32 .r1 (c.gpr rt)) (.reg .r0) (c.gpr rs + simm) := by
    refine Reads.set64_ne (fun h' hr => ?_) (by decide) _
    have := haddr { h' with reg := h₂.reg } rfl
    simpa only [HState.val32, hr, hscratch .r0 rfl] using this
  have hcall : (icallWrite f).exec R (h₃.set32 .r1 (c.gpr rt)) = some
      ((h₃.set32 .r1 (c.gpr rt)).afterCall
        (f.call R (c.gpr rs + simm) (c.gpr rt) (h₃.set32 .r1 (c.gpr rt)).cpu) none) := by
    simp [Op.exec, haddr'.val, (Reads.set32_self h₃ .r1 (c.gpr rt)).val, bind_some, map_some]
  refine wp_bind (wp_emitOp hcall ?_)
  exact wp_gprUnpin ((hok₃.set64 rfl _).write f _ _) fun _ hok' => hok'

end

/-! ## 5. Helpers -/

theorem Helper.call_pc (f : Helper) (insn p : Word) (d : Cpu M) :
    f.call R insn { d with pc := p } = { f.call R insn d with pc := p } := by
  cases f with
  | memx =>
    simp only [call, psxSljitMemx]
    split <;> rfl
  | cop2 =>
    simp only [call, psxSljitCop2]
    split_ifs <;> rfl

variable {insn : Word}

theorem wp_emitHelper2 {f : Helper} (hok : Ok used [] x κ h c) (h0 : (f.call R insn c).gpr 0#5 = 0#32) :
    wp (exec R) (emitHelper2 f insn) (Leaves used x (f.call R insn c)) κ h := by
  refine wp_bind (wp_gprFlush hok ?_)
  intro κ₁ h₁ hok₁ hcpu
  refine wp_bind (wp_emitOp rfl ?_)
  refine wp_gprReset hok₁.wf hok₁.ctrl ?_ h0 fun κ' hok' _ => hok'
  have hc : h₁.cpu = { c with pc := h₁.cpu.pc } := by rw [← hcpu]
  show { f.call R insn h₁.cpu with pc := (f.call R insn c).pc } = f.call R insn c
  rw [hc, call_pc]

/-! ## 6. `emit_one` -/

/-- A `COP2` word the interpreter handles. The helper ignores the others, where the interpreter
stops. -/
def Cop2Known (insn : Word) : Prop :=
  opField insn = 0x12#6 → rsField insn = 0x00#5 ∨ rsField insn = 0x02#5 ∨ rsField insn = 0x04#5 ∨
    rsField insn = 0x06#5 ∨ rsField insn &&& 0x10#5 ≠ 0#5

instance (insn : Word) : Decidable (Cop2Known insn) := inferInstanceAs (Decidable (_ → _))

theorem execCop2_of_known (hop : opField insn = 0x12#6) (hk : Cop2Known insn)
    (c : Cpu M) : execCop2 R insn c = .ok (psxSljitCop2 R insn c) := by
  have hk := hk hop
  simp only [execCop2, psxSljitCop2, if_pos hop]
  split_ifs <;> first | rfl | tauto

theorem uses_of_mem {m : Finset Reg} (hn : n ∈ m) (hu : m.erase 0 ⊆ used) :
    Uses used n :=
  fun h0 => hu (Finset.mem_erase.mpr ⟨h0, hn⟩)

/-- An emitted instruction that was not refused does what the interpreter does. -/
def Emitted (R : Runtime M) (used : Finset Reg) (x : Option (BitVec 64)) (insn : Word) (c : Cpu M) :
    Status → GprCache → HState M → Prop :=
  fun st κ h => st = .ok → ∃ c', execPlain R insn c = .ok c' ∧ Ok used [] x κ h c'

theorem wp_done {m : Emit Unit} (he : execPlain R insn c = .ok c')
    (hm : wp (exec R) m (Leaves used x c') κ h) :
    wp (exec R) (done m) (Emitted R used x insn c) κ h :=
  wp_seq hm fun _ _ _ hok => wp_pure fun _ => ⟨c', he, hok⟩

theorem wp_refused {st : Status} (hst : st ≠ .ok) :
    wp (exec R) (pure st) (Emitted R used x insn c) κ h :=
  wp_pure fun h => absurd h hst

theorem Op32.apply_shift (v : Word) (n : BitVec 5) :
    Op32.shl.apply v (n.setWidth 32) = some (v <<< n.toNat) ∧
    Op32.lshr.apply v (n.setWidth 32) = some (v >>> n.toNat) ∧
    Op32.ashr.apply v (n.setWidth 32) = some (v.sshiftRight n.toNat) := by
  have hw : (n.setWidth 32).toNat = n.toNat := by
    rw [BitVec.toNat_setWidth, Nat.mod_eq_of_lt (by omega)]
  have hlt : n.toNat < 32 := by omega
  simp [Op32.apply, hw, if_pos hlt, and_self]

theorem Op32.apply_shift_and31 (v w : Word) :
    Op32.shl.apply v (w &&& 31) = some (v <<< (w &&& 31).toNat) ∧
    Op32.lshr.apply v (w &&& 31) = some (v >>> (w &&& 31).toNat) ∧
    Op32.ashr.apply v (w &&& 31) = some (v.sshiftRight (w &&& 31).toNat) := by
  have hlt : (w &&& 31).toNat < 32 := by
    exact Nat.lt_of_le_of_lt Nat.and_le_right (by decide)
  simp only [Op32.apply, if_pos hlt, and_self]

theorem wp_emitSpecial (hop : opField insn = 0x00#6) (hok : Ok used [] x κ h c)
    (hu : gprRefMask insn ⊆ used) :
    wp (exec R) (emitSpecial insn) (Emitted R used x insn c) κ h := by
  have hexec : execPlain R insn c = execSpecial insn c := by simp [execPlain, hop]
  -- `JR` and `JALR` are refused; for the others the mask has all three registers
  have huse (h8 : functField insn ≠ 0x08#6) (h9 : functField insn ≠ 0x09#6) :
      Uses used (rsField insn) ∧ Uses used (rtField insn) ∧ Uses used (rdField insn) := by
    simp only [gprRefMask, hop, if_true, if_neg h8, if_neg h9] at hu
    exact ⟨uses_of_mem (by simp) hu, uses_of_mem (by simp) hu, uses_of_mem (by simp) hu⟩
  unfold emitSpecial
  split <;> rename_i hfn
  case h_7 => exact wp_refused (by split <;> decide)
  case h_27 => exact wp_refused (by decide)
  all_goals
    obtain ⟨hrs, hrt, hrd⟩ := huse (by rw [hfn]; decide) (by rw [hfn]; decide)
    rw [execSpecial] at hexec
    simp only [hfn] at hexec
  case h_1 => exact wp_done hexec (wp_immOp hok (by simp) hrt hrd (Op32.apply_shift _ _).1)
  case h_2 => exact wp_done hexec (wp_immOp hok (by simp) hrt hrd (Op32.apply_shift _ _).2.1)
  case h_3 => exact wp_done hexec (wp_immOp hok (by simp) hrt hrd (Op32.apply_shift _ _).2.2)
  case h_4 => exact wp_done hexec (wp_emitShiftVar hok hrs hrt hrd (Op32.apply_shift_and31 _ _).1)
  case h_5 => exact wp_done hexec (wp_emitShiftVar hok hrs hrt hrd (Op32.apply_shift_and31 _ _).2.1)
  case h_6 => exact wp_done hexec (wp_emitShiftVar hok hrs hrt hrd (Op32.apply_shift_and31 _ _).2.2)
  case h_8 => exact wp_pure fun _ => ⟨c, hexec, hok⟩
  case h_9 | h_10 | h_11 | h_12 | h_13 | h_14 | h_15 =>
    exact wp_done hexec (wp_emitAluRR hok hrs hrt hrd rfl)
  case h_16 => exact wp_done hexec (wp_emitNor hok hrs hrt hrd)
  case h_17 | h_18 =>
    refine wp_done hexec (wp_emitSlt hok hrs hrd ?_)
    rintro _ ⟨⟩
    exact hrt
  case h_19 =>
    refine wp_done hexec (wp_emitMove hok hrd fun h' hsame => ?_)
    have := congrArg hi (rest_congr hsame.rest hok.sync.rest)
    exact congrArg some this
  case h_20 =>
    refine wp_done hexec (wp_emitMove hok hrd fun h' hsame => ?_)
    have := congrArg lo (rest_congr hsame.rest hok.sync.rest)
    exact congrArg some this
  case h_21 => exact wp_done hexec (wp_emitMoveTo hok hrs fun _ _ _ hok' => hok'.setHi _)
  case h_22 => exact wp_done hexec (wp_emitMoveTo hok hrs fun _ _ _ hok' => hok'.setLo _)
  case h_23 | h_24 => exact wp_done hexec (wp_emitMult hok hrs hrt)
  case h_25 => exact wp_done hexec (wp_emitDiv hok hrs hrt)
  case h_26 => exact wp_done hexec (wp_emitDivu hok hrs hrt)

theorem uses_rs_rt (hu : gprRefMask insn ⊆ used)
    (hm : gprRefMask insn = ({rsField insn, rtField insn} : Finset Reg).erase 0) :
    Uses used (rsField insn) ∧ Uses used (rtField insn) := by
  rw [hm] at hu
  exact ⟨uses_of_mem (by simp) hu, uses_of_mem (by simp) hu⟩

theorem gprRefMask_memory (hop : opField insn ∈ [0x08#6, 0x09#6, 0x0A#6, 0x0B#6, 0x0C#6,
      0x0D#6, 0x0E#6, 0x20#6, 0x21#6, 0x23#6, 0x24#6, 0x25#6, 0x28#6, 0x29#6, 0x2B#6]) :
    gprRefMask insn = ({rsField insn, rtField insn} : Finset Reg).erase 0 := by
  simp only [gprRefMask]
  generalize opField insn = op at hop ⊢
  fin_cases hop <;> rfl

theorem loaded_eq : (∀ v : BitVec 8, loaded (some .s8) (v.setWidth 32) = v.signExtend 32) ∧
    (∀ v : BitVec 8, loaded (some .u8) (v.setWidth 32) = v.setWidth 32) ∧
    (∀ v : BitVec 16, loaded (some .s16) (v.setWidth 32) = v.signExtend 32) ∧
    (∀ v : BitVec 16, loaded (some .u16) (v.setWidth 32) = v.setWidth 32) := by
  refine ⟨fun v => ?_, fun v => ?_, fun v => ?_, fun v => ?_⟩ <;> simp only [loaded, Ext.apply]
  all_goals
    rw [Words.setWidth_setWidth_self (by decide)]
    first
      | exact Words.setWidth_signExtend (by decide) ..
      | exact BitVec.setWidth_setWidth_of_le _ (by decide)

/-- For every word `emit_one` accepts, the code it emits takes a host state that stands for the guest
state `c` to one that stands for what `exec_one` makes of `c`. The one exception is a `COP2` word with
an operation the interpreter refuses: the helper ignores it. -/
theorem wp_emitOne (hok : Ok used [] x κ h c) (hu : gprRefMask insn ⊆ used) (hk : Cop2Known insn) :
    wp (exec R) (emitOne insn) (Emitted R used x insn c) κ h := by
  have huse (hop : _) := uses_rs_rt hu (gprRefMask_memory hop)
  unfold emitOne
  split <;> rename_i hop
  case h_1 => exact wp_emitSpecial hop hok hu
  case h_25 => exact wp_refused (by decide)
  case h_2 | h_3 =>
    obtain ⟨hrs, hrt⟩ := huse (by simp [hop])
    exact wp_done (by simp only [execPlain, hop]) (wp_emitAddi hok hrs hrt)
  case h_4 | h_5 =>
    obtain ⟨hrs, hrt⟩ := huse (by simp [hop])
    refine wp_done (by simp only [execPlain, hop]; rfl) (wp_emitSlt hok hrs hrt ?_)
    rintro _ ⟨⟩
  case h_6 | h_7 | h_8 =>
    obtain ⟨hrs, hrt⟩ := huse (by simp [hop])
    exact wp_done (by simp only [execPlain, hop]) (wp_immOp hok (by simp) hrs hrt rfl)
  case h_9 =>
    have hm : gprRefMask insn = ({rtField insn} : Finset Reg).erase 0 := by
      simp only [gprRefMask, hop]
      rfl
    rw [hm] at hu
    exact wp_done (by simp only [execPlain, hop])
      (wp_emitMove hok (uses_of_mem (by simp) hu) fun _ _ => rfl)
  case h_10 | h_11 | h_12 | h_13 | h_14 =>
    obtain ⟨hrs, hrt⟩ := huse (by simp [hop])
    refine wp_done ?_ (wp_emitLoad hok hrs hrt)
    simp only [execPlain, hop, ReadFn.call, loaded_eq]
    rfl
  case h_15 | h_16 | h_17 =>
    obtain ⟨hrs, hrt⟩ := huse (by simp [hop])
    exact wp_done (by simp only [execPlain, hop]; rfl) (wp_emitStore hok hrs hrt)
  case h_18 | h_19 | h_20 | h_21 =>
    have hexec : execPlain R insn c = .ok (memx.call R insn c) := by
      simp only [execPlain, call, psxSljitMemx, hop]
      rfl
    refine wp_done hexec (wp_emitHelper2 hok ?_)
    simp only [call, psxSljitMemx, hop]
    first | exact writeBack_gpr_zero _ _ _ | exact hok.sync.zero
  case h_22 =>
    have hexec : execPlain R insn c = .ok (cop2.call R insn c) := by
      simp only [execPlain, hop]
      exact execCop2_of_known hop hk c
    refine wp_done hexec (wp_emitHelper2 hok ?_)
    simp only [call, psxSljitCop2, if_pos hop]
    split_ifs <;> first | exact writeBack_gpr_zero _ _ _ | exact hok.sync.zero
  case h_23 | h_24 =>
    have hexec : execPlain R insn c = .ok (cop2.call R insn c) := by
      simp only [execPlain, call, psxSljitCop2, hop]
      rfl
    refine wp_done hexec (wp_emitHelper2 hok ?_)
    simp only [call, psxSljitCop2, hop]
    exact hok.sync.zero

end PsxRecomp.Jit
