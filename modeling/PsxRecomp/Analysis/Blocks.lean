import Mathlib.Data.List.Chain
import PsxRecomp.Lib.Bytes
import PsxRecomp.Analysis.ControlFlow

/-!
# `Analysis/Blocks.lean` — what `analyze_function` builds is a control-flow graph

`ControlFlowGraph.WellFormed` is what the generator relies on.
-/

set_option autoImplicit false

namespace PsxRecomp

open List

/-! ## 1. Transfers -/

/-- The word at `a` transfers control. -/
def Exe.Transfer (exe : Exe) (a w : Word) : Prop := exe.readWord a = some w ∧ isControlFlow w = true

theorem type_ne_none_iff (a w : Word) :
    (analyzeInstruction a w).type ≠ .none ↔ isControlFlow w = true := by
  unfold analyzeInstruction isControlFlow
  generalize opField w = op
  generalize functField w = fn
  split
  · split
    · simp only [if_true]
      split_ifs <;> simp
    · simp
    · rename_i h8 h9
      have h8 : fn ≠ 0x08#6 := h8
      have h9 : fn ≠ 0x09#6 := h9
      simp [h8, h9]
  case h_13 =>
    -- the opcodes that are left are no transfers
    rename_i h0 h1 h4 h5 h6 h7 h14 h15 h16 h17 h2 h3
    replace h0 : op ≠ 0#6 := h0
    simp only [h0, if_false]
    revert op
    decide +kernel
  all_goals simp

@[simp] theorem analyzeInstruction_address (a w : Word) : (analyzeInstruction a w).address = a := by
  unfold analyzeInstruction
  split
  · split <;> rfl
  all_goals rfl

@[simp] theorem analyzeInstruction_instruction (a w : Word) :
    (analyzeInstruction a w).instruction = w := by
  unfold analyzeInstruction
  split
  · split <;> rfl
  all_goals rfl

variable {a w : Word}

theorem hasDelaySlot_of_ne (h : (analyzeInstruction a w).type ≠ .none) :
    (analyzeInstruction a w).hasDelaySlot = true := by
  revert h
  unfold analyzeInstruction
  split
  · split
    · exact fun _ => rfl
    · exact fun _ => rfl
    · exact fun h => absurd rfl h
  case h_13 => exact fun h => absurd rfl h
  all_goals exact fun _ => rfl

theorem toNat_sub_four (h : 4 ≤ a.toNat) : (a - 4#32).toNat = a.toNat - 4 :=
  BitVec.toNat_sub_of_le h

theorem aligned_add {b : Word} (ha : Aligned a) (hb : Aligned b) : Aligned (a + b) := by
  unfold Aligned at *
  rw [BitVec.toNat_add]
  omega

theorem aligned_shiftLeft (x : Word) : Aligned (x <<< 2) := by
  unfold Aligned
  rw [BitVec.toNat_shiftLeft, Nat.shiftLeft_eq]
  omega

theorem aligned_branchTarget (h : Aligned a) (w : Word) : Aligned (branchTarget a w) :=
  aligned_add (aligned_add h (b := 4) rfl) (aligned_shiftLeft _)

theorem aligned_jumpTarget (a w : Word) : Aligned (jumpTarget a w) := by
  have hshift : Aligned ((target26 w).setWidth 32 <<< 2) := aligned_shiftLeft _
  unfold Aligned at *
  rw [show jumpTarget a w = ((a + 4) &&& 0xF0000000#32) ||| ((target26 w).setWidth 32 <<< 2) from rfl,
    BitVec.toNat_or, BitVec.toNat_and, show 4 = 2 ^ 2 from rfl, Nat.or_mod_two_pow,
    Nat.and_mod_two_pow, hshift]
  simp

theorem aligned_target (h : Aligned a) (w : Word) :
    Aligned (analyzeInstruction a w).target := by
  have hb := aligned_branchTarget h w
  have hj := aligned_jumpTarget a w
  have h0 : Aligned (0 : Word) := rfl
  unfold analyzeInstruction
  split
  · split <;> exact h0
  all_goals assumption

/-- The exit of a block: the transfer in its last word but one, else the one in its last, else none -/
inductive ExitOf (exe : Exe) (start last : Word) : ControlFlowInstr → Prop
  | inBlock {w : Word} : start < last → exe.Transfer (last - 4#32) w →
      ExitOf exe start last (analyzeInstruction (last - 4#32) w)
  | atEnd {w : Word} : (start < last → ∀ v, ¬ exe.Transfer (last - 4#32) v) → exe.Transfer last w →
      ExitOf exe start last (analyzeInstruction last w)
  | none : (start < last → ∀ v, ¬ exe.Transfer (last - 4#32) v) → (∀ v, ¬ exe.Transfer last v) →
      ExitOf exe start last (noExit last)

theorem transfer_or (exe : Exe) (a : Word) (otherwise : ControlFlowInstr) :
    (∃ w, exe.Transfer a w ∧ transferAt exe a otherwise = analyzeInstruction a w) ∨
      (∀ w, ¬ exe.Transfer a w) ∧ transferAt exe a otherwise = otherwise := by
  unfold Exe.Transfer transferAt
  cases hw : exe.readWord a with
  | none => exact .inr ⟨by simp, rfl⟩
  | some w =>
    by_cases hcf : isControlFlow w = true
    · exact .inl ⟨w, ⟨rfl, hcf⟩, if_pos hcf⟩
    · refine .inr ⟨?_, if_neg hcf⟩
      rintro v ⟨hv, hcf'⟩
      cases hv
      exact hcf hcf'

theorem exitOf_exitInstr (exe : Exe) (start last : Word) :
    ExitOf exe start last (exitInstr exe start last) := by
  -- if nothing was found before, the last word decides
  have hlast : (start < last → ∀ v, ¬ exe.Transfer (last - 4#32) v) →
      ExitOf exe start last (transferAt exe last (noExit last)) := by
    intro hno
    obtain ⟨w, hw, he⟩ | ⟨hw, he⟩ := transfer_or exe last (noExit last)
    · rw [he]
      exact .atEnd hno hw
    · rw [he]
      exact .none hno hw
  unfold exitInstr
  by_cases hlt : start < last
  · simp only [if_pos hlt]
    obtain ⟨w, hw, he⟩ | ⟨hw, he⟩ := transfer_or exe (last - 4#32) (noExit last)
    · rw [he, if_neg ((type_ne_none_iff _ w).mpr hw.2)]
      exact .inBlock hlt hw
    · rw [he]
      exact hlast fun _ => hw
  · simp only [if_neg hlt]
    exact hlast fun h => absurd h hlt

variable {e : ControlFlowInstr}

theorem ExitOf.no_transfer {exe : Exe} {start last : Word}
    (h : ExitOf exe start last e) (hnone : e.type = .none) (v : Word) : ¬ exe.Transfer last v := by
  cases h with
  | inBlock _ hw | atEnd _ hw => exact absurd hnone ((type_ne_none_iff _ _).mpr hw.2)
  | none _ hno => exact hno v

/-! ## 2. Boundaries -/

section
variable {exe : Exe} {f : Function}

/-- The range of an executable that holds all its words -/
structure Readable (exe : Exe) (f : Function) : Prop extends Function.Placed f where
  words : ∀ a, Aligned a → f.Contains a → (exe.readWord a).isSome = true

variable (h : Readable exe f)
include h

theorem Readable.bounds : 0x80000000 ≤ f.walkLo.toNat ∧ f.walkLo.toNat + 4 ≤ f.endAddr.toNat ∧
    f.endAddr.toNat ≤ 0x80200000 := by
  have hlt := BitVec.lt_def.mp h.lo_lt_end
  have hlo : f.walkLo.toNat % 4 = 0 := h.lo_aligned
  have hend : f.endAddr.toNat % 4 = 0 := h.end_aligned
  have hsub := toNat_sub_four (a := f.endAddr) (by omega)
  have hfirst := Exe.readWord_isSome_iff.mp
    (h.words f.walkLo h.lo_aligned ⟨le_rfl, h.lo_lt_end⟩)
  have hlast := Exe.readWord_isSome_iff.mp (h.words (f.endAddr - 4#32)
    (by show (_ : Nat) % 4 = 0; omega) ⟨by rw [BitVec.le_def]; omega, by rw [BitVec.lt_def]; omega⟩)
  have := exe.end_le
  have := exe.kseg0
  omega

theorem Readable.mem_words : a ∈ f.words ↔ Aligned a ∧ f.Contains a := by
  obtain ⟨hlo, hlt, hend⟩ := h.bounds
  have hloA : f.walkLo.toNat % 4 = 0 := h.lo_aligned
  simp only [Function.words, List.mem_map, mem_range]
  constructor
  · rintro ⟨i, hi, rfl⟩
    have hnat : (f.walkLo + BitVec.ofNat 32 (4 * i)).toNat = f.walkLo.toNat + 4 * i := by
      rw [BitVec.toNat_add, BitVec.toNat_ofNat]
      omega
    refine ⟨?_, ?_, ?_⟩
    · show (_ : Nat) % 4 = 0
      omega
    · rw [BitVec.le_def]
      omega
    · rw [BitVec.lt_def]
      omega
  · rintro ⟨ha, hle, hae⟩
    rw [BitVec.le_def] at hle
    rw [BitVec.lt_def] at hae
    have haA : a.toNat % 4 = 0 := ha
    refine ⟨(a.toNat - f.walkLo.toNat) / 4, by omega, BitVec.eq_of_toNat_eq ?_⟩
    rw [BitVec.toNat_add, BitVec.toNat_ofNat]
    omega

omit h in
/-- Where a block has to start: at the first instruction, at an entry, at a target and behind a delay
slot -/
inductive Leader (exe : Exe) (f : Function) : Word → Prop
  | first : Leader exe f f.walkLo
  | entry {a : Word} : f.aliasWalkLo ≠ 0 → a = f.startAddr ∨ a ∈ f.aliasGroupEntries →
      f.Contains a → Leader exe f a
  | target {a w : Word} : Aligned a → f.Contains a → exe.Transfer a w →
      f.Contains (analyzeInstruction a w).target → Leader exe f (analyzeInstruction a w).target
  | afterDelay {a w : Word} : Aligned a → f.Contains a → exe.Transfer a w → f.Contains (a + 8#32) →
      Leader exe f (a + 8#32)

theorem Readable.ne_zero (ha : f.Contains a) : a ≠ 0#32 := by
  rintro rfl
  have hle := BitVec.le_def.mp ha.1
  have := h.bounds
  simp at hle
  omega

theorem Readable.mem_scanWord {b : Word} : b ∈ scanWord exe f a ↔ ∃ w, exe.Transfer a w ∧
    f.Contains b ∧ (b = (analyzeInstruction a w).target ∨ b = a + 8#32) := by
  unfold scanWord Exe.Transfer
  cases hw : exe.readWord a with
  | none => simp
  | some w =>
    by_cases hcf : isControlFlow w = true
    · simp only [hcf, if_true, mem_append, mem_ite_nil_right, mem_singleton,
        Option.some.injEq, and_assoc, exists_eq_left', true_and]
      constructor
      · rintro (⟨-, hc, rfl⟩ | ⟨-, hc, rfl⟩)
        · exact ⟨hc, .inl rfl⟩
        · exact ⟨hc, .inr rfl⟩
      · rintro ⟨hc, rfl | rfl⟩
        · exact .inl ⟨h.ne_zero hc, hc, rfl⟩
        · exact .inr ⟨hc.2, hc, rfl⟩
    · simp [hcf]

theorem Readable.mem_boundaries : a ∈ boundaries exe f ↔ Leader exe f a := by
  simp only [boundaries, Cuts.mem_points, List.cons_append, mem_cons, mem_append,
    mem_flatMap, h.mem_words, h.mem_scanWord]
  constructor
  · rintro (rfl | hentry | ⟨b, ⟨hb, hin⟩, w, hw, ha, rfl | rfl⟩)
    · exact .first
    · split_ifs at hentry with hz
      · simp only [mem_cons, mem_filter, decide_eq_true_eq] at hentry
        rcases hentry with rfl | ⟨ha, hc⟩
        · exact .entry hz (.inl rfl) (h.entry hz).1
        · exact .entry hz (.inr ha) hc
      · cases hentry
    · exact .target hb hin hw ha
    · exact .afterDelay hb hin hw ha
  · rintro (_ | ⟨hz, ha, hc⟩ | ⟨ha, hin, hw, hc⟩ | ⟨ha, hin, hw, hc⟩)
    · exact .inl rfl
    · right; left
      rw [if_pos hz]
      simp only [mem_cons, mem_filter, decide_eq_true_eq]
      exact ha.imp_right fun ha => ⟨ha, hc⟩
    · exact .inr (.inr ⟨_, ⟨ha, hin⟩, _, hw, hc, .inl rfl⟩)
    · exact .inr (.inr ⟨_, ⟨ha, hin⟩, _, hw, hc, .inr rfl⟩)

theorem Readable.leader_contains (ha : Leader exe f a) : f.Contains a := by
  cases ha with
  | first => exact ⟨le_rfl, h.lo_lt_end⟩
  | entry _ _ hc | target _ _ _ hc | afterDelay _ _ _ hc => exact hc

theorem Readable.leader_aligned (ha : Leader exe f a) : Aligned a := by
  cases ha with
  | first => exact h.lo_aligned
  | entry hz ha hc =>
    rcases ha with rfl | ha
    · exact (h.entry hz).2
    · exact h.entries_aligned hz a ha hc
  | target hb _ _ _ => exact aligned_target hb _
  | afterDelay hb _ _ _ => exact aligned_add hb rfl

omit h in
theorem boundaries_pairwise (exe : Exe) (f : Function) : (boundaries exe f).Pairwise (· < ·) :=
  Cuts.points_pairwise _

theorem Readable.boundaries_lt : ∀ a ∈ boundaries exe f, a < f.endAddr :=
  fun _ ha => (h.leader_contains (h.mem_boundaries.mp ha)).2

theorem Readable.head_boundaries : (boundaries exe f).head? = some f.walkLo := by
  have hsorted := boundaries_pairwise exe f
  have hlo : f.walkLo ∈ boundaries exe f := h.mem_boundaries.mpr .first
  cases hb : boundaries exe f with
  | nil => simp [hb] at hlo
  | cons a l =>
    rw [hb] at hsorted hlo
    have ha : f.walkLo ≤ a := (h.leader_contains (h.mem_boundaries.mp (by simp [hb]))).1
    rcases mem_cons.mp hlo with he | hl
    · simp [he]
    · exact absurd ((pairwise_cons.mp hsorted).1 _ hl) (not_lt_of_ge ha)

/-! ## 3. Blocks -/

open BitVec

omit h in
/-- The piece of the range from one boundary to the next -/
def Piece (exe : Exe) (f : Function) (p : Word × Word) : Prop :=
  p ∈ Cuts.pieces (boundaries exe f) f.endAddr

variable {p : Word × Word} (hp : Piece exe f p)
include hp

theorem Readable.piece_bounds : f.walkLo.toNat ≤ p.1.toNat ∧ p.1.toNat + 4 ≤ p.2.toNat ∧
    p.2.toNat ≤ f.endAddr.toNat ∧ p.1.toNat % 4 = 0 ∧ p.2.toNat % 4 = 0 := by
  have hleader := h.mem_boundaries.mp (Cuts.fst_mem hp)
  have hlo := le_def.mp (h.leader_contains hleader).1
  have hfst : p.1.toNat % 4 = 0 := h.leader_aligned hleader
  have hlt := lt_def.mp (Cuts.fst_lt_snd (boundaries_pairwise exe f) h.boundaries_lt hp)
  have hsnd : p.2.toNat % 4 = 0 ∧ p.2.toNat ≤ f.endAddr.toNat := by
    rcases Cuts.snd_mem hp with hmem | he
    · have hleader := h.mem_boundaries.mp hmem
      exact ⟨h.leader_aligned hleader, (lt_def.mp (h.leader_contains hleader).2).le⟩
    · rw [he]
      exact ⟨h.end_aligned, le_rfl⟩
  omega

theorem Readable.toNat_last : (p.2 - 4#32).toNat = p.2.toNat - 4 := by
  have := h.piece_bounds hp
  exact toNat_sub_four (by omega)

theorem Readable.basicBlock_eq (bounds : List Word) :
    basicBlock exe f bounds p = some (blockOf exe f bounds p) := by
  have := h.piece_bounds hp
  rw [basicBlock, if_neg]
  rw [lt_def, h.toNat_last hp]
  omega

/-- No transfer hides deeper in a block: there is a boundary behind its delay slot. -/
theorem Readable.last_le_of_transfer (ha : Aligned a) (hle : p.1 ≤ a) (hlt : a < p.2)
    (hw : exe.Transfer a w) : p.2.toNat ≤ a.toNat + 8 := by
  have hb := h.bounds
  have hpb := h.piece_bounds hp
  rw [le_def] at hle
  rw [lt_def] at hlt
  have hnat : (a + 8#32).toNat = a.toNat + 8 := by
    rw [toNat_add, toNat_ofNat]
    omega
  by_cases hin : a + 8#32 < f.endAddr
  · have hin' := lt_def.mp hin
    have hmem : a + 8#32 ∈ boundaries exe f := h.mem_boundaries.mpr <| .afterDelay ha
      ⟨by rw [le_def]; omega, by rw [lt_def]; omega⟩ hw
      ⟨by rw [le_def]; omega, hin⟩
    have hcut := le_def.mp (Cuts.le_of_mem (boundaries_pairwise exe f) h.boundaries_lt hp hmem
      (by rw [lt_def]; omega))
    omega
  · rw [lt_def] at hin
    omega

omit hp

theorem Readable.blocks_eq : (analyzeFunction exe f).blocks =
    (Cuts.pieces (boundaries exe f) f.endAddr).map (blockOf exe f (boundaries exe f)) := by
  rw [← filterMap_eq_map]
  exact filterMap_congr fun p hp => h.basicBlock_eq hp _

theorem Readable.mem_blocks {b : BasicBlock} : b ∈ (analyzeFunction exe f).blocks ↔
    ∃ p, Piece exe f p ∧ blockOf exe f (boundaries exe f) p = b := by
  rw [h.blocks_eq, List.mem_map]
  rfl

theorem Readable.blocks_pairwise :
    (analyzeFunction exe f).blocks.Pairwise fun b b' => b.endAddr < b'.startAddr := by
  rw [h.blocks_eq, pairwise_map]
  refine (Cuts.pieces_pairwise (boundaries_pairwise exe f) h.boundaries_lt).imp_of_mem ?_
  intro p q hp _ hpq
  have := h.piece_bounds hp
  rw [le_def] at hpq
  rw [lt_def, blockOf, h.toNat_last hp]
  show _ < q.1.toNat
  omega

theorem Readable.hasBlock_iff :
    (analyzeFunction exe f).hasBlock a = true ↔ a ∈ boundaries exe f := by
  simp only [ControlFlowGraph.hasBlock, h.blocks_eq, List.any_eq_true, List.mem_map, decide_eq_true_eq]
  constructor
  · rintro ⟨b, ⟨p, hp, rfl⟩, rfl⟩
    exact Cuts.fst_mem hp
  · intro ha
    obtain ⟨e, hp⟩ := Cuts.exists_piece (e := f.endAddr) ha
    exact ⟨_, ⟨_, hp, rfl⟩, rfl⟩

/-! ## 4. The graph -/

omit h in
def BasicBlock.Covers (b : BasicBlock) (a : Word) : Prop := b.startAddr ≤ a ∧ a < b.endAddr + 4#32

omit h in
/-- `cfg` is a control-flow graph of the range of `f`. -/
structure ControlFlowGraph.WellFormed (exe : Exe) (f : Function) (cfg : ControlFlowGraph) : Prop where
  starts : ∀ a, (∃ b ∈ cfg.blocks, b.startAddr = a) ↔ Leader exe f a
  inside : ∀ b ∈ cfg.blocks, Aligned b.startAddr ∧ Aligned b.endAddr ∧
    f.walkLo ≤ b.startAddr ∧ b.startAddr ≤ b.endAddr ∧ b.endAddr < f.endAddr
  contiguous : cfg.blocks.IsChain fun b b' => b.endAddr + 4#32 = b'.startAddr
  covers : ∀ a, f.Contains a → ∃! b, b ∈ cfg.blocks ∧ b.Covers a
  /-- A transfer is the exit, in one of the last two words, or the delay slot of the exit. -/
  transfer : ∀ b ∈ cfg.blocks, ∀ a w, Aligned a → b.Covers a → exe.Transfer a w →
    (b.exitInstr = analyzeInstruction a w ∧ (a = b.endAddr ∨ a + 4#32 = b.endAddr)) ∨
      (b.exitInstr.type ≠ .none ∧ b.exitInstr.address + 4#32 = a)
  exit : ∀ b ∈ cfg.blocks, b.exitInstr.type ≠ .none →
    ∃ a w, b.Covers a ∧ exe.Transfer a w ∧ b.exitInstr = analyzeInstruction a w
  successors : ∀ b ∈ cfg.blocks, ∀ a ∈ b.successors, ∃ b' ∈ cfg.blocks, b'.startAddr = a
  fallThrough : ∀ b ∈ cfg.blocks, b.exitInstr.type = .none → b.endAddr + 4#32 ≠ f.endAddr →
    b.successors = [b.endAddr + 4#32]

omit h in
@[simp] theorem last_add (x : Word) : x - 4#32 + 4#32 = x := BitVec.sub_add_cancel x _

omit h in
theorem covers_blockOf {bounds : List Word} :
    (blockOf exe f bounds p).Covers a ↔ p.1 ≤ a ∧ a < p.2 := by
  simp [BasicBlock.Covers, blockOf]

theorem Readable.block_unique {b b' : BasicBlock} (hb : b ∈ (analyzeFunction exe f).blocks)
    (hb' : b' ∈ (analyzeFunction exe f).blocks) (hc : b.Covers a) (hc' : b'.Covers a) :
    b = b' := by
  obtain ⟨p, hp, rfl⟩ := h.mem_blocks.mp hb
  obtain ⟨q, hq, rfl⟩ := h.mem_blocks.mp hb'
  rw [Cuts.eq_of_covers (boundaries_pairwise exe f) h.boundaries_lt hp hq (covers_blockOf.mp hc)
    (covers_blockOf.mp hc')]

omit h in
theorem mem_successors {bounds : List Word} {last : Word}
    (ha : a ∈ successors f bounds e last) : a ∈ bounds := by
  have hin : ∀ x, a ∈ (if f.Contains x ∧ x ∈ bounds then [x] else []) → a ∈ bounds := by
    intro x hx
    obtain ⟨⟨-, hmem⟩, hax⟩ := mem_ite_nil_right.mp hx
    rwa [mem_singleton.mp hax]
  have htarget : ∀ x, a ∈ (if x ≠ 0#32 then if f.Contains x ∧ x ∈ bounds then [x] else [] else []) →
      a ∈ bounds := fun x hx => hin x (mem_ite_nil_right.mp hx).2
  cases ht : e.type <;> simp only [successors, ht] at ha
  case branch => exact (mem_append.mp ha).elim (htarget _) (hin _)
  case jump => exact htarget _ ha
  case ret => cases ha
  case jumpRegister => cases ha
  all_goals exact hin _ ha

theorem Readable.transfer_exit (hp : Piece exe f p) (ha : Aligned a)
    (hle : p.1 ≤ a) (hlt : a < p.2) (hw : exe.Transfer a w) :
    (exitInstr exe p.1 (p.2 - 4#32) = analyzeInstruction a w ∧
        (a = p.2 - 4#32 ∨ a + 4#32 = p.2 - 4#32)) ∨
      ((exitInstr exe p.1 (p.2 - 4#32)).type ≠ .none ∧
        (exitInstr exe p.1 (p.2 - 4#32)).address + 4#32 = a) := by
  have hend := h.last_le_of_transfer hp ha hle hlt hw
  have hb := h.piece_bounds hp
  have hlast := h.toNat_last hp
  have haA : a.toNat % 4 = 0 := ha
  have hle' := le_def.mp hle
  have hex := exitOf_exitInstr exe p.1 (p.2 - 4#32)
  generalize exitInstr exe p.1 (p.2 - 4#32) = e at hex
  -- the transfer is in one of the last two words
  rcases Nat.lt_or_ge (a.toNat + 4) p.2.toNat with hprev | hprev
  · have heq : a = p.2 - 4#32 - 4#32 := by bv_omega
    cases hex with
    | inBlock hlt2 hv =>
      left
      rw [← heq] at hv ⊢
      have : _ = w := Option.some.inj (hv.1.symm.trans hw.1)
      rw [this]
      exact ⟨rfl, .inr (by bv_omega)⟩
    | atEnd hno _ | none hno _ => exact absurd hw (heq ▸ hno (by rw [lt_def]; omega) w)
  · have heq : a = p.2 - 4#32 := by bv_omega
    cases hex with
    | inBlock hlt2 hv =>
      right
      refine ⟨(type_ne_none_iff _ _).mpr hv.2, ?_⟩
      rw [analyzeInstruction_address, last_add, heq]
    | atEnd hno hv =>
      left
      rw [← heq] at hv ⊢
      have : _ = w := Option.some.inj (hv.1.symm.trans hw.1)
      rw [this]
      exact ⟨rfl, .inl rfl⟩
    | none _ hno => exact absurd hw (heq ▸ hno w)

theorem Readable.exit_transfer (hp : Piece exe f p)
    (hne : (exitInstr exe p.1 (p.2 - 4#32)).type ≠ .none) :
    ∃ a w, (p.1 ≤ a ∧ a < p.2) ∧ exe.Transfer a w ∧
      exitInstr exe p.1 (p.2 - 4#32) = analyzeInstruction a w := by
  have hbounds := h.piece_bounds hp
  have hex := exitOf_exitInstr exe p.1 (p.2 - 4#32)
  generalize exitInstr exe p.1 (p.2 - 4#32) = e at hex hne ⊢
  cases hex with
  | inBlock hlt hv =>
    exact ⟨_, _, ⟨by bv_omega, by bv_omega⟩, hv, rfl⟩
  | atEnd _ hv => exact ⟨_, _, ⟨by bv_omega, by bv_omega⟩, hv, rfl⟩
  | none => exact absurd rfl hne

theorem Readable.fallThrough (hp : Piece exe f p) (hne : p.2 ≠ f.endAddr)
    (he : e.type = .none) :
    successors f (boundaries exe f) e (p.2 - 4#32) = [p.2] := by
  have hmem := (Cuts.snd_mem hp).resolve_right hne
  have hin := h.leader_contains (h.mem_boundaries.mp hmem)
  simp only [successors, he, last_add]
  rw [if_pos ⟨hin, hmem⟩]

theorem Readable.wellFormed : (analyzeFunction exe f).WellFormed exe f := by
  have hsorted := boundaries_pairwise exe f
  have hlt := h.boundaries_lt
  refine ⟨fun a => ?_, ?_, ?_, fun a ha => ?_, ?_, ?_, ?_, ?_⟩
  · rw [← h.mem_boundaries]
    constructor
    · rintro ⟨b, hb, rfl⟩
      obtain ⟨p, hp, rfl⟩ := h.mem_blocks.mp hb
      exact Cuts.fst_mem hp
    · intro ha
      obtain ⟨e, hp⟩ := Cuts.exists_piece (e := f.endAddr) ha
      exact ⟨_, h.mem_blocks.mpr ⟨(a, e), hp, rfl⟩, rfl⟩
  · intro b hb
    obtain ⟨p, hp, rfl⟩ := h.mem_blocks.mp hb
    have hb := h.piece_bounds hp
    have hlast := h.toNat_last hp
    simp only [blockOf, Aligned, le_def, lt_def]
    omega
  · rw [h.blocks_eq, isChain_map]
    refine (Cuts.pieces_chain _ _).imp ?_
    intro p q hpq
    exact (last_add p.2).trans hpq
  · obtain ⟨p, hp, hap⟩ := Cuts.exists_covers hsorted hlt h.head_boundaries ha.1 ha.2
    refine ⟨_, ⟨h.mem_blocks.mpr ⟨p, hp, rfl⟩, covers_blockOf.mpr hap⟩, ?_⟩
    rintro b ⟨hb, hba⟩
    exact h.block_unique hb (h.mem_blocks.mpr ⟨p, hp, rfl⟩) hba (covers_blockOf.mpr hap)
  · intro b hb a w ha hcov hw
    obtain ⟨p, hp, rfl⟩ := h.mem_blocks.mp hb
    obtain ⟨hle, hlt'⟩ := covers_blockOf.mp hcov
    exact h.transfer_exit hp ha hle hlt' hw
  · intro b hb hne
    obtain ⟨p, hp, rfl⟩ := h.mem_blocks.mp hb
    obtain ⟨a, w, hcov, hw, he⟩ := h.exit_transfer hp hne
    exact ⟨a, w, covers_blockOf.mpr hcov, hw, he⟩
  · intro b hb a ha
    obtain ⟨p, hp, rfl⟩ := h.mem_blocks.mp hb
    obtain ⟨e, hq⟩ := Cuts.exists_piece (e := f.endAddr) (mem_successors ha)
    exact ⟨_, h.mem_blocks.mpr ⟨(a, e), hq, rfl⟩, rfl⟩
  · intro b hb hnone hne
    obtain ⟨p, hp, rfl⟩ := h.mem_blocks.mp hb
    simp only [blockOf, last_add] at hnone hne ⊢
    exact h.fallThrough hp hne hnone

end

/-- Of every aligned range of readable words `analyze_function` builds a control-flow graph: the blocks
partition the range, a transfer is the exit of its block or the delay slot of the exit, successors are
blocks, and a block without a transfer goes on to the next one. -/
theorem analyze_function_wellFormed (exe : Exe) (f : Function) (h : Readable exe f) :
    (analyzeFunction exe f).WellFormed exe f :=
  h.wellFormed

/-! ## 5. Images of a few words -/

/-- An image of `words` at `0x80010000` -/
def textExe (words : List Word) (h : 0 < words.length ∧ words.length ≤ 64) : Exe where
  loadAddress := 0x80010000#32
  codeData := words.flatMap fun w => (List.range 4).map (Words.byteOf w)
  kseg0 := by decide
  nonempty := by
    simp
    omega
  end_le := by
    simp
    omega

/-- Its first `n` words, as a function -/
def textFunction (n : Nat) : Function where
  startAddr := 0x80010000#32
  endAddr := BitVec.ofNat 32 (0x80010000 + 4 * n)

theorem readable_text {words : List Word} (h : 0 < words.length ∧ words.length ≤ 64) {n : Nat}
    (hn : 0 < n ∧ n ≤ words.length) : Readable (textExe words h) (textFunction n) := by
  have hend : (textFunction n).endAddr.toNat = 0x80010000 + 4 * n := by
    simp [textFunction]
    omega
  have hlo : Aligned 0x80010000#32 := by decide
  refine ⟨⟨hlo, ?_, ?_, fun h => absurd rfl h, fun h => absurd rfl h⟩, ?_⟩
  · show (_ : Nat) % 4 = 0
    omega
  · rw [BitVec.lt_def, hend]
    show 0x80010000 < _
    omega
  · rintro a ha ⟨hlo, hhi⟩
    have haA : a.toNat % 4 = 0 := ha
    have hlo : 0x80010000 ≤ a.toNat := hlo
    rw [BitVec.lt_def, hend] at hhi
    rw [Exe.readWord_isSome_iff]
    simp [textExe]
    omega

/-- `jr $ra` and its delay slot -/
def returnExe : Exe := textExe [0x03E00008#32, 0#32] (by decide)

/-- `beq $1, $2, X; Y: nop; bne $1, $0, Y; X: nop; jr $ra; nop`: both branches have a slot that the other one
goes to. -/
def loopExe : Exe :=
  textExe [0x10220002#32, 0#32, 0x1420FFFE#32, 0#32, 0x03E00008#32, 0#32] (by decide)

theorem analyze_function_loop :
    (analyzeFunction loopExe (textFunction 6)).blocks.map (fun b => (b.startAddr, b.successors)) =
      [(0x80010000#32, [0x8001000C#32, 0x80010008#32]), (0x80010004#32, [0x80010008#32]),
        (0x80010008#32, [0x80010004#32, 0x80010010#32]), (0x8001000C#32, [0x80010010#32]),
        (0x80010010#32, [])] ∧
    (analyzeFunction loopExe (textFunction 6)).WellFormed loopExe (textFunction 6) :=
  ⟨by decide, analyze_function_wellFormed _ _ (readable_text _ (by decide))⟩

end PsxRecomp
