import PsxRecomp.Runtime.DmaLive

/-!
# `Runtime/Dicr.lean` — the DMA interrupt register

`DICR` as the hardware documents it: bit 31 is bit 15, or bit 23 together with a channel whose enable
bit (16 to 22) and flag (24 to 30) are both set; and interrupt 3 comes with each rise of that bit.
`dma.c` looks at the enable bit of a channel when its transfer completes, and not again:
`dicr_master_flag` asks for any flag at all.
-/

set_option autoImplicit false

namespace PsxRecomp.Dma.Dicr

open BitVec

/-! ## 1. The bits -/

def dicrReadValue (v : Word) : Word :=
  (v &&& 0x7FFFFFFF#32) ||| if dicrMasterFlag v then 0x80000000#32 else 0#32

def documentedMaster (v : Word) : Bool :=
  v.getLsbD 15 ||
    (v.getLsbD 23 && (List.finRange 7).any fun ch => v.getLsbD (16 + ch) && v.getLsbD (24 + ch))

/-- A flag that is pending is enabled, or pending flags make no difference. -/
def Covered (v : Word) : Prop :=
  v.getLsbD 15 = true ∨ v.getLsbD 23 = false ∨ (∀ ch : Fin 7, v.getLsbD (24 + ch) = false) ∨
    ∃ ch : Fin 7, v.getLsbD (16 + ch) = true ∧ v.getLsbD (24 + ch) = true

theorem getLsbD_resetMask (i : Nat) : (0x7F000000#32).getLsbD i = decide (24 ≤ i ∧ i < 31) := by
  by_cases h : i < 32
  · revert i
    decide
  · rw [getLsbD_of_ge _ _ (by omega), eq_comm, decide_eq_false_iff_not]
    omega

theorem flags_ne_zero_iff {v : Word} :
    (v &&& 0x7F000000#32) ≠ 0#32 ↔ ∃ ch : Fin 7, v.getLsbD (24 + ch) = true := by
  constructor
  · intro h
    by_contra hnone
    push Not at hnone
    refine h (eq_of_getLsbD_eq fun i _ => ?_)
    rw [getLsbD_and, getLsbD_resetMask]
    by_cases hi : 24 ≤ i ∧ i < 31
    · have := hnone ⟨i - 24, by omega⟩
      rw [Fin.val_mk, Nat.add_sub_cancel' hi.1] at this
      simp [this]
    · simp [hi]
  · rintro ⟨ch, hch⟩ hzero
    have := congrArg (BitVec.getLsbD · (24 + ch.val)) hzero
    simp only [getLsbD_and, getLsbD_resetMask, hch, getLsbD_zero] at this
    simp_all
    omega

theorem dicrMasterFlag_iff {v : Word} : dicrMasterFlag v = true ↔
    v.getLsbD 15 = true ∨ v.getLsbD 23 = true ∧ ∃ ch : Fin 7, v.getLsbD (24 + ch) = true := by
  rw [← flags_ne_zero_iff]
  simp [dicrMasterFlag]

theorem documentedMaster_iff {v : Word} : documentedMaster v = true ↔
    v.getLsbD 15 = true ∨
      v.getLsbD 23 = true ∧ ∃ ch : Fin 7, v.getLsbD (16 + ch) = true ∧ v.getLsbD (24 + ch) = true := by
  simp [documentedMaster]

theorem documentedMaster_eq_iff {v : Word} : documentedMaster v = dicrMasterFlag v ↔ Covered v := by
  rw [Bool.eq_iff_iff, documentedMaster_iff, dicrMasterFlag_iff, Covered]
  cases h15 : v.getLsbD 15 with
  | true => simp
  | false =>
    cases h23 : v.getLsbD 23 with
    | false => simp
    | true =>
      simp only [Bool.false_eq_true, false_or, true_and, Bool.true_eq_false]
      constructor
      · intro h
        by_cases hflag : ∃ ch : Fin 7, v.getLsbD (24 + ch) = true
        · exact .inr (h.mpr hflag)
        · exact .inl fun ch => Bool.eq_false_iff.mpr fun hch => hflag ⟨ch, hch⟩
      · rintro (hnone | hsome)
        · refine iff_of_false ?_ ?_
          · rintro ⟨ch, -, hch⟩
            rw [hnone ch] at hch
            cases hch
          · rintro ⟨ch, hch⟩
            rw [hnone ch] at hch
            cases hch
        · exact iff_of_true hsome (hsome.imp fun _ h => h.2)

theorem getLsbD_dicrReadValue (v : Word) {i : Nat} (hi : i < 31) :
    (dicrReadValue v).getLsbD i = v.getLsbD i := by
  have hlow : ∀ j < 31, (0x7FFFFFFF#32).getLsbD j = true ∧ (0x80000000#32).getLsbD j = false := by decide
  unfold dicrReadValue
  split_ifs <;> simp [(hlow i hi).1, (hlow i hi).2]

theorem dicrReadValue_31 (v : Word) : (dicrReadValue v).getLsbD 31 = dicrMasterFlag v := by
  unfold dicrReadValue
  cases dicrMasterFlag v <;> simp

theorem documentedMaster_read (v : Word) : documentedMaster (dicrReadValue v) = documentedMaster v := by
  rw [Bool.eq_iff_iff, documentedMaster_iff, documentedMaster_iff,
    getLsbD_dicrReadValue v (by omega), getLsbD_dicrReadValue v (by omega)]
  have hch : ∀ ch : Fin 7, (dicrReadValue v).getLsbD (16 + ch) = v.getLsbD (16 + ch) ∧
      (dicrReadValue v).getLsbD (24 + ch) = v.getLsbD (24 + ch) := fun ch =>
    ⟨getLsbD_dicrReadValue v (by omega), getLsbD_dicrReadValue v (by omega)⟩
  simp [hch]

/-! ## 2. Histories -/

/-- What reaches the register: a store under a byte mask, the end of a transfer, a load. -/
inductive Op where
  | write (val mask : Word)
  | complete (ch : Fin 7)
  | read

section
variable {E : Type} (bus : Bus E)

def Op.step (s : State E) : Op → State E
  | .write val mask => (dmaWriteMasked bus 0x1F8010F4#32 val mask s).getD s
  | .complete ch => completeTransfer bus ch s
  | .read => s

/-- One operation under the law, with `master` as the formula of bit 31. -/
structure Op.Obeys (master : Word → Bool) (op : Op) (s : State E) : Prop where
  before : (dicrReadValue s.dicr).getLsbD 31 = master (dicrReadValue s.dicr)
  after : (dicrReadValue (op.step bus s).dicr).getLsbD 31 = master (dicrReadValue (op.step bus s).dicr)
  /-- A write clears the flags it has ones for, and changes no other. -/
  flags : ∀ val mask, op = .write val mask → ∀ ch : Fin 7,
    (dicrReadValue (op.step bus s).dicr).getLsbD (24 + ch) =
      ((dicrReadValue s.dicr).getLsbD (24 + ch) && !(val.getLsbD (24 + ch) && mask.getLsbD (24 + ch)))
  /-- Interrupt 3 comes with the rise of the bit, and at no other time. -/
  irq : (op.step bus s).env =
    if master (dicrReadValue s.dicr) = false ∧ master (dicrReadValue (op.step bus s).dicr) = true then
      bus.irqRaise s.env (((op.step bus s).dicr >>> 24) &&& 0x7F#32)
    else s.env

def Lawful (master : Word → Bool) : List Op → State E → Prop
  | [], _ => True
  | op :: ops, s => op.Obeys bus master s ∧ Lawful master ops (op.step bus s)

/-- The value the `DICR` case of `dma_write_masked` stores -/
def dicrWritten (dicr val mask : Word) : Word :=
  merge dicr val (dicrWriteMask &&& mask) &&& ~~~(val &&& (dicrResetMask &&& mask))

/-- No write of the history leaves flags pending that are all disabled. -/
def WritesCover : List Op → State E → Prop
  | [], _ => True
  | op :: ops, s =>
    (∀ val mask, op = .write val mask → Covered (dicrWritten s.dicr val mask)) ∧
      WritesCover ops (op.step bus s)

variable {bus}

theorem step_write (s : State E) (val mask : Word) : Op.step bus s (.write val mask) =
    raiseOnMasterEdge bus s.dicr { s with dicr := dicrWritten s.dicr val mask } := rfl

theorem raiseOnMasterEdge_dicr (before : Word) (s : State E) :
    (raiseOnMasterEdge bus before s).dicr = s.dicr := by
  unfold raiseOnMasterEdge
  split <;> rfl

theorem raiseOnMasterEdge_env (before : Word) (s : State E) : (raiseOnMasterEdge bus before s).env =
    if dicrMasterFlag before = false ∧ dicrMasterFlag s.dicr = true then
      bus.irqRaise s.env ((s.dicr >>> 24) &&& 0x7F#32)
    else s.env := by
  unfold raiseOnMasterEdge
  cases dicrMasterFlag before <;> cases dicrMasterFlag s.dicr <;> rfl

theorem step_env (op : Op) (s : State E) :
    (op.step bus s).env = if dicrMasterFlag s.dicr = false ∧ dicrMasterFlag (op.step bus s).dicr = true
      then bus.irqRaise s.env (((op.step bus s).dicr >>> 24) &&& 0x7F#32) else s.env := by
  have hstays : ∀ s' : State E, s'.dicr = s.dicr → s'.env = s.env → s'.env =
      if dicrMasterFlag s.dicr = false ∧ dicrMasterFlag s'.dicr = true
      then bus.irqRaise s.env ((s'.dicr >>> 24) &&& 0x7F#32) else s.env := by
    intro s' hdicr henv
    rw [hdicr, henv]
    cases dicrMasterFlag s.dicr <;> rfl
  cases op with
  | write val mask => rw [step_write, raiseOnMasterEdge_env, raiseOnMasterEdge_dicr]
  | complete ch =>
    by_cases harmed : irqFlagArmed s ch = true
    · simp only [Op.step, completeTransfer, if_pos harmed]
      rw [raiseOnMasterEdge_env, raiseOnMasterEdge_dicr]
      rfl
    · refine hstays _ ?_ ?_ <;> simp only [Op.step, completeTransfer, if_neg harmed] <;> rfl
  | read => exact hstays s rfl rfl

theorem covered_complete {s : State E} {ch : Fin 7} (h : Covered s.dicr) :
    Covered (Op.step bus s (.complete ch)).dicr := by
  by_cases harmed : irqFlagArmed s ch = true
  · simp only [Op.step, completeTransfer, if_pos harmed]
    rw [raiseOnMasterEdge_dicr]
    refine .inr (.inr (.inr ⟨ch, ?_, ?_⟩))
    · rw [getLsbD_or]
      simp only [irqFlagArmed, Bool.and_eq_true] at harmed
      rw [harmed.1, Bool.true_or]
    · have := ch.isLt
      simp
      omega
  · simp only [Op.step, completeTransfer, if_neg harmed]
    exact h

theorem getLsbD_dicrWritten_flag (dicr val mask : Word) (ch : Fin 7) :
    (dicrWritten dicr val mask).getLsbD (24 + ch) =
      (dicr.getLsbD (24 + ch) && !(val.getLsbD (24 + ch) && mask.getLsbD (24 + ch))) := by
  have hmasks : ∀ ch : Fin 7, dicrWriteMask.getLsbD (24 + ch) = false ∧
      dicrResetMask.getLsbD (24 + ch) = true := by decide
  have hlt : 24 + ch.val < 32 := by omega
  simp only [dicrWritten, merge, getLsbD_and, getLsbD_or, getLsbD_not, hlt,
    (hmasks ch).1, (hmasks ch).2, decide_true, Bool.true_and, Bool.false_and, Bool.and_false,
    Bool.not_false, Bool.and_true, Bool.or_false]

theorem dicrMasterFlag_read (v : Word) : dicrMasterFlag (dicrReadValue v) = dicrMasterFlag v := by
  rw [Bool.eq_iff_iff, dicrMasterFlag_iff, dicrMasterFlag_iff,
    getLsbD_dicrReadValue v (by omega), getLsbD_dicrReadValue v (by omega)]
  have hch : ∀ ch : Fin 7, (dicrReadValue v).getLsbD (24 + ch) = v.getLsbD (24 + ch) := fun ch =>
    getLsbD_dicrReadValue v (by omega)
  simp [hch]

theorem obeys_dicrMasterFlag (op : Op) (s : State E) : op.Obeys bus dicrMasterFlag s where
  before := by rw [dicrReadValue_31, dicrMasterFlag_read]
  after := by rw [dicrReadValue_31, dicrMasterFlag_read]
  flags := by
    rintro val mask rfl ch
    rw [getLsbD_dicrReadValue _ (by omega), getLsbD_dicrReadValue _ (by omega), step_write,
      raiseOnMasterEdge_dicr]
    exact getLsbD_dicrWritten_flag s.dicr val mask ch
  irq := by
    rw [dicrMasterFlag_read, dicrMasterFlag_read]
    exact step_env op s

theorem obeys_documentedMaster_iff (op : Op) (s : State E) :
    op.Obeys bus documentedMaster s ↔ Covered s.dicr ∧ Covered (op.step bus s).dicr := by
  have hread : ∀ v : Word, (dicrReadValue v).getLsbD 31 = documentedMaster (dicrReadValue v) ↔
      Covered v := fun v => by
    rw [dicrReadValue_31, documentedMaster_read, eq_comm, documentedMaster_eq_iff]
  constructor
  · intro h
    exact ⟨(hread _).mp h.before, (hread _).mp h.after⟩
  · rintro ⟨hbefore, hafter⟩
    refine ⟨(hread _).mpr hbefore, (hread _).mpr hafter, (obeys_dicrMasterFlag op s).flags, ?_⟩
    rw [documentedMaster_read, documentedMaster_read, documentedMaster_eq_iff.mpr hbefore,
      documentedMaster_eq_iff.mpr hafter]
    exact step_env op s

theorem lawful_dicrMasterFlag (ops : List Op) (s : State E) : Lawful bus dicrMasterFlag ops s := by
  induction ops generalizing s with
  | nil => trivial
  | cons op ops ih => exact ⟨obeys_dicrMasterFlag op s, ih _⟩

theorem covered_step_iff {op : Op} {s : State E} (h : Covered s.dicr) :
    Covered (op.step bus s).dicr ↔
      ∀ val mask, op = .write val mask → Covered (dicrWritten s.dicr val mask) := by
  cases op with
  | write val mask =>
    rw [step_write, raiseOnMasterEdge_dicr]
    constructor
    · rintro hcov _ _ ⟨⟩
      exact hcov
    · intro hcov
      exact hcov val mask rfl
  | complete ch => exact iff_of_true (covered_complete h) (fun _ _ heq => by cases heq)
  | read => exact iff_of_true h (fun _ _ heq => by cases heq)

theorem lawful_documentedMaster_iff {s : State E} (h : Covered s.dicr) (ops : List Op) :
    Lawful bus documentedMaster ops s ↔ WritesCover bus ops s := by
  induction ops generalizing s with
  | nil => exact Iff.rfl
  | cons op ops ih =>
    rw [Lawful, WritesCover, obeys_documentedMaster_iff, covered_step_iff h, and_iff_right h]
    refine and_congr_right fun hwrites => ih ?_
    exact (covered_step_iff h).mpr hwrites

end

theorem covered_reset {E : Type} (e : E) : Covered (reset e).dicr := by
  change Covered 0#32
  exact .inr (.inl (by decide))

/-- **The register along every history from reset.** Bit 31 reads as bit 15, or bit 23 with a pending
flag; a write only acknowledges flags; and interrupt 3 comes with each rise of bit 31. The formula that
also looks at the enable bits gives the same exactly if no write leaves only disabled flags pending. -/
theorem dicr_law {E : Type} (bus : Bus E) (e : E) (ops : List Op) :
    Lawful bus dicrMasterFlag ops (reset e) ∧
      (Lawful bus documentedMaster ops (reset e) ↔ WritesCover bus ops (reset e)) :=
  ⟨lawful_dicrMasterFlag ops _, lawful_documentedMaster_iff (covered_reset e) ops⟩

/-- Channel 0 completes with its interrupt enabled, and the enable is taken away. -/
def withdrawn : List Op :=
  [.write 0x00810000#32 0xFFFFFFFF#32, .complete 0, .write 0x00800000#32 0xFFFFFFFF#32]

/-- Bit 31 stays set with no channel enabled. -/
theorem withdrawn_enable_keeps_master : ¬ Lawful nullBus documentedMaster withdrawn (reset ()) := by
  rintro ⟨-, -, h, -⟩
  have hbit := h.after
  revert hbit
  decide

end PsxRecomp.Dma.Dicr
