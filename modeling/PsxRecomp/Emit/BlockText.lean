import PsxRecomp.Analysis.Blocks
import PsxRecomp.Emit.Block

/-!
# `Emit/BlockText.lean` — the text of a block, word by word

For the blocks of an analysed function the loop of `translate_basic_block` ends where the block ends.
-/

set_option autoImplicit false

namespace PsxRecomp.CodeGen

open List BitVec

/-! ## 1. Blocks of an analysed function -/

/-- What the emitter needs to know of a block: it is a run of readable instructions. -/
structure BlockOf (exe : Exe) (f : Function) (b : BasicBlock) : Prop where
  mem : b ∈ (analyzeFunction exe f).blocks
  start_aligned : b.startAddr.toNat % 4 = 0
  end_aligned : b.endAddr.toNat % 4 = 0
  lo_le : f.walkLo.toNat ≤ b.startAddr.toNat
  start_le : b.startAddr.toNat ≤ b.endAddr.toNat
  end_lt : b.endAddr.toNat + 4 ≤ f.endAddr.toNat
  count : b.instructionCount.toNat = (b.endAddr.toNat - b.startAddr.toNat) / 4 + 1
  exit : ExitOf exe b.startAddr b.endAddr b.exitInstr
  succ : b.successors = successors f (boundaries exe f) b.exitInstr b.endAddr

theorem blockOf_of_mem {exe : Exe} {f : Function} (h : Readable exe f) {b : BasicBlock}
    (hb : b ∈ (analyzeFunction exe f).blocks) : BlockOf exe f b := by
  have hmem := hb
  obtain ⟨p, hp, rfl⟩ := h.mem_blocks.mp hb
  have hbounds := h.piece_bounds hp
  have hlast := h.toNat_last hp
  have hcount : ((p.2 - 4#32 - p.1) / 4#32 + 1#32).toNat = (p.2.toNat - 4 - p.1.toNat) / 4 + 1 := by
    rw [toNat_add, toNat_udiv,
      toNat_sub_of_le (by rw [le_def, hlast]; omega), hlast]
    rw [show (4#32).toNat = 4 from rfl, show (1#32).toNat = 1 from rfl]
    omega
  refine ⟨hmem, ?_, ?_, ?_, ?_, ?_, ?_, exitOf_exitInstr .., rfl⟩
  all_goals simp only [PsxRecomp.blockOf, hlast, hcount]
  all_goals omega

section
variable {exe : Exe} {f : Function} (h : Readable exe f) {b : BasicBlock} (hb : BlockOf exe f b)
include h hb

theorem BlockOf.bound : b.endAddr.toNat + 4 ≤ 0x80200000 := by
  have := h.bounds
  have := hb.end_lt
  omega

omit h in
theorem BlockOf.toNat_word {i : Nat} (hi : i < b.instructionCount.toNat) :
    (b.startAddr + BitVec.ofNat 32 (4 * i)).toNat = b.startAddr.toNat + 4 * i := by
  have hcount := hb.count
  rw [toNat_add, toNat_ofNat]
  omega

theorem BlockOf.readable {a : Word} (ha : Aligned a) (hlo : b.startAddr.toNat ≤ a.toNat)
    (hhi : a.toNat ≤ b.endAddr.toNat) : ∃ w, exe.readWord a = some w := by
  have := hb.lo_le
  have := hb.end_lt
  refine Option.isSome_iff_exists.mp (h.words a ha ⟨?_, ?_⟩)
  · rw [le_def]
    omega
  · rw [lt_def]
    omega

omit h in
theorem BlockOf.exit_cases (hne : b.exitInstr.type ≠ .none) : ∃ w, exe.Transfer b.exitInstr.address w ∧
    b.exitInstr = analyzeInstruction b.exitInstr.address w ∧
    exitBranchAddr b = b.exitInstr.address ∧
    ((b.startAddr < b.endAddr ∧ b.exitInstr.address = b.endAddr - 4#32 ∧ slotInBlock b = true) ∨
      (b.exitInstr.address = b.endAddr ∧ slotInBlock b = false)) := by
  have hex := hb.exit
  have hend := hb.end_aligned
  unfold exitBranchAddr slotInBlock
  generalize b.exitInstr = e at hex hne ⊢
  cases hex with
  | @inBlock w hlt hw =>
    have hslot := hasDelaySlot_of_ne hne
    have hlt' : b.endAddr - 4#32 < b.endAddr := by
      rw [lt_def] at hlt
      rw [lt_def, toNat_sub_four (by omega)]
      omega
    refine ⟨w, by simpa using hw, by simp, ?_, .inl ⟨hlt, by simp, ?_⟩⟩ <;> simp [hslot, hne, hlt']
  | @atEnd w _ hw =>
    refine ⟨w, by simpa using hw, by simp, ?_, .inr ⟨by simp, ?_⟩⟩ <;> simp
  | none => exact absurd rfl hne

omit h in
theorem BlockOf.start_lt_of_slot (hslot : slotInBlock b = true) : b.startAddr < b.endAddr := by
  have hne : b.exitInstr.type ≠ .none := by
    intro hnone
    simp [slotInBlock, hnone] at hslot
  obtain ⟨w, -, -, -, ⟨hlt, -, -⟩ | ⟨-, hno⟩⟩ := hb.exit_cases hne
  · exact hlt
  · rw [hno] at hslot
    cases hslot

theorem BlockOf.covers_iff {a : Word} (ha : Aligned a) :
    b.Covers a ↔ b.startAddr.toNat ≤ a.toNat ∧ a.toNat ≤ b.endAddr.toNat := by
  have hbound := hb.bound h
  have haA : a.toNat % 4 = 0 := ha
  have heA := hb.end_aligned
  rw [BasicBlock.Covers, le_def, lt_def, toNat_add,
    show (4#32).toNat = 4 from rfl]
  omega

end

/-! ## 2. The text -/

section
variable (g : Context)

/-- The text of the word at `a` in its block -/
def atWord (b : BasicBlock) (a : Word) : List Emitted :=
  match g.exe.readWord a with
  | none => []
  | some instr => if slotInBlock b ∧ a = b.endAddr then [] else wordCode g b a instr

def blockWords (b : BasicBlock) : List Word :=
  (List.range b.instructionCount.toNat).map fun i => b.startAddr + BitVec.ofNat 32 (4 * i)

theorem wordsCode_eq {b : BasicBlock} (n : Nat) (addr : Word)
    (hread : ∀ i < n, ∃ w, g.exe.readWord (addr + BitVec.ofNat 32 (4 * i)) = some w)
    (hlast : n ≠ 0 → addr.toNat + 4 * n = b.endAddr.toNat + 4) (hbound : b.endAddr.toNat + 4 < 2 ^ 32) :
    wordsCode g b n addr =
      ((List.range n).map fun i => addr + BitVec.ofNat 32 (4 * i)).flatMap (atWord g b) := by
  induction n generalizing addr with
  | zero => rfl
  | succ n ih =>
    have hin : ¬ b.endAddr < addr := by
      rw [lt_def]
      omega
    obtain ⟨w, hw⟩ := hread 0 (Nat.succ_pos n)
    rw [Nat.mul_zero, BitVec.add_zero] at hw
    have hshift : ∀ i, addr + 4#32 + BitVec.ofNat 32 (4 * i) = addr + BitVec.ofNat 32 (4 * (i + 1)) := by
      intro i
      rw [add_assoc, Nat.mul_add, Nat.add_comm, ofNat_add]
    have hnat : n ≠ 0 → (addr + 4#32).toNat = addr.toNat + 4 := by
      intro hn
      rw [toNat_add, show (4#32).toNat = 4 from rfl]
      omega
    have hrest := ih (addr + 4#32)
      (fun i hi => by rw [hshift]; exact hread (i + 1) (by omega))
      (fun hn => by rw [hnat hn]; omega)
    simp only [hshift] at hrest
    rw [range_succ_eq_map, map_cons, flatMap_cons, List.map_map]
    simp only [wordsCode, if_neg hin, hw, atWord, Nat.mul_zero, BitVec.add_zero]
    split_ifs with hslot
    · -- the delay slot is the last word, so that nothing follows
      have hn : n = 0 := by
        have := congrArg BitVec.toNat hslot.2
        omega
      subst hn
      rfl
    · rw [hrest]
      rfl

variable {f : Function} (h : Readable g.exe f) {b : BasicBlock} (hb : BlockOf g.exe f b)
include h hb

/-- The text of a block is its label, the text of each word in turn, and a tail. -/
theorem translateBasicBlock_eq : translateBasicBlock g b =
    .label b.startAddr :: (blockWords b).flatMap (atWord g b) ++
      if b.exitInstr.type = .none ∧ b.successors = [] ∧ b.endAddr + 4#32 ∈ g.known then
        [.tailCall (b.endAddr + 4#32)]
      else [] := by
  have hbound := hb.bound h
  have hcount := hb.count
  have hle := hb.start_le
  have hs := hb.start_aligned
  have he := hb.end_aligned
  rw [translateBasicBlock, wordsCode_eq g (b := b) _ _ ?_ (by omega) (by omega)]
  · rfl
  · intro i hi
    have hnat := hb.toNat_word hi
    exact hb.readable h (by show (_ : Nat) % 4 = 0; omega) (by omega) (by omega)

omit h in
theorem mem_blockWords {a : Word} : a ∈ blockWords b ↔
    Aligned a ∧ b.startAddr.toNat ≤ a.toNat ∧ a.toNat ≤ b.endAddr.toNat := by
  have hcount := hb.count
  have hle := hb.start_le
  have hs := hb.start_aligned
  simp only [blockWords, List.mem_map, mem_range]
  constructor
  · rintro ⟨i, hi, rfl⟩
    have hnat := hb.toNat_word hi
    refine ⟨?_, by omega, by omega⟩
    show (_ : Nat) % 4 = 0
    omega
  · rintro ⟨ha, hlo, hhi⟩
    have haA : a.toNat % 4 = 0 := ha
    refine ⟨(a.toNat - b.startAddr.toNat) / 4, by omega, eq_of_toNat_eq ?_⟩
    rw [hb.toNat_word (by omega)]
    omega

omit h in
theorem exit_mem_blockWords (hne : b.exitInstr.type ≠ .none) :
    b.exitInstr.address ∈ blockWords b := by
  have hs := hb.start_aligned
  have he := hb.end_aligned
  have hle := hb.start_le
  obtain ⟨w, hw, -, -, ⟨hse, haddr, -⟩ | ⟨haddr, -⟩⟩ := hb.exit_cases hne
  · rw [lt_def] at hse
    have hnat := toNat_sub_four (a := b.endAddr) (by omega)
    rw [haddr]
    refine (mem_blockWords g hb).mpr ⟨?_, by omega, by omega⟩
    show (_ : Nat) % 4 = 0
    omega
  · rw [haddr]
    exact (mem_blockWords g hb).mpr ⟨he, hle, le_rfl⟩

/-! ## 3. The words the statements are for -/

omit h hb in
theorem exitCode_mem {x a : Word} {s : CS} (hc : .code a s ∈ exitCode g b x) :
    a = x ∨ (a = x + 4#32 ∧ ∃ w, g.exe.readWord (x + 4#32) = some w) := by
  unfold exitCode at hc
  dsimp only at hc
  split at hc
  · rename_i slot hslot
    have hread : g.exe.readWord (x + 4#32) = some slot := by
      split_ifs at hslot
      exact hslot
    split_ifs at hc
    all_goals
      simp only [mem_cons, Emitted.code.injEq, not_mem_nil, or_false] at hc
      rcases hc with ⟨rfl, -⟩ | hc
      · exact .inl rfl
    · rcases hc with ⟨rfl, -⟩ | ⟨rfl, -⟩
      · exact .inr ⟨rfl, slot, hread⟩
      · exact .inl rfl
    · rcases hc with ⟨rfl, -⟩ | ⟨rfl, -⟩ | ⟨rfl, -⟩
      · exact .inl rfl
      · exact .inr ⟨rfl, slot, hread⟩
      · exact .inl rfl
    · rcases hc with ⟨rfl, -⟩ | ⟨rfl, -⟩
      · exact .inr ⟨rfl, slot, hread⟩
      · exact .inl rfl
  · simp only [mem_cons, Emitted.code.injEq, not_mem_nil, or_false] at hc
    rcases hc with ⟨rfl, -⟩ | ⟨rfl, -⟩ <;> exact .inl rfl

omit h hb in
theorem atWord_code {x a : Word} {s : CS} (hc : .code a s ∈ atWord g b x) :
    a = x ∨ (x = exitBranchAddr b ∧ a = x + 4#32 ∧ (∃ w, g.exe.Transfer x w) ∧
      ∃ w, g.exe.readWord (x + 4#32) = some w) := by
  unfold atWord at hc
  split at hc
  · cases hc
  · rename_i instr hinstr
    split_ifs at hc with hslot
    · cases hc
    · rcases mem_append.mp hc with hl | hc
      · split_ifs at hl <;> simp at hl
      · split_ifs at hc with hcf hx
        · exact (exitCode_mem g hc).imp_right fun ⟨ha, hw⟩ => ⟨hx, ha, ⟨instr, hinstr, hcf⟩, hw⟩
        · cases hc
        · simp only [mem_singleton, Emitted.code.injEq] at hc
          exact .inl hc.1

omit h hb in
/-- The exit is the last word, and there is a word behind it. -/
def SlotOutside (exe : Exe) (b : BasicBlock) : Prop :=
  b.exitInstr.type ≠ .none ∧ b.exitInstr.address = b.endAddr ∧
    (exe.readWord (b.endAddr + 4#32)).isSome = true

theorem code_mem {a : Word} {s : CS} (hc : .code a s ∈ translateBasicBlock g b) :
    (Aligned a ∧ b.startAddr.toNat ≤ a.toNat ∧ a.toNat ≤ b.endAddr.toNat) ∨
      (a = b.endAddr + 4#32 ∧ SlotOutside g.exe b) := by
  rw [translateBasicBlock_eq g h hb] at hc
  have hc : .code a s ∈ (blockWords b).flatMap (atWord g b) := by
    split_ifs at hc <;> simpa using hc
  obtain ⟨x, hx, hc⟩ := mem_flatMap.mp hc
  have hxw := (mem_blockWords g hb).mp hx
  rcases atWord_code g hc with rfl | ⟨hxe, rfl, ⟨w, hw⟩, w', hw'⟩
  · exact .inl hxw
  · have hne : b.exitInstr.type ≠ .none := by
      intro hnone
      have hslot : slotInBlock b = false := by simp [slotInBlock, hnone]
      rw [exitBranchAddr, hslot, if_neg Bool.false_ne_true] at hxe
      exact hb.exit.no_transfer hnone w (hxe ▸ hw)
    obtain ⟨v, hv, -, hbr, ⟨hlt, haddr, -⟩ | ⟨haddr, -⟩⟩ := hb.exit_cases hne
    · left
      rw [hxe, hbr, haddr, last_add]
      exact ⟨hb.end_aligned, hb.start_le, le_rfl⟩
    · right
      have hx' : x = b.endAddr := by rw [hxe, hbr, haddr]
      rw [hx'] at hw' ⊢
      exact ⟨rfl, hne, haddr, by rw [hw']; rfl⟩

omit h in
theorem atWord_exit (hne : b.exitInstr.type ≠ .none) : atWord g b b.exitInstr.address =
    (if b.exitInstr.address ≠ b.startAddr ∧ b.exitInstr.address ∈ g.extraLabels
      then [.label b.exitInstr.address] else []) ++ exitCode g b b.exitInstr.address := by
  obtain ⟨w, hw, -, hbr, -⟩ := hb.exit_cases hne
  have hnot : ¬ (slotInBlock b = true ∧ b.exitInstr.address = b.endAddr) := by
    rintro ⟨hin, haddr⟩
    simp [slotInBlock, haddr] at hin
  simp only [atWord, hw.1, wordCode, hw.2, if_true, hbr]
  rw [if_neg hnot]

theorem slot_code_mem (hout : SlotOutside g.exe b) :
    ∃ s, .code (b.endAddr + 4#32) s ∈ translateBasicBlock g b := by
  obtain ⟨hne, haddr, hread⟩ := hout
  obtain ⟨slot, hslot⟩ := Option.isSome_iff_exists.mp hread
  obtain ⟨w, hw, he, hbr, hcase⟩ := hb.exit_cases hne
  have hdelay : b.exitInstr.hasDelaySlot = true := by
    rw [he] at hne ⊢
    exact hasDelaySlot_of_ne hne
  have hat := atWord_exit g hb hne
  rw [haddr] at hat
  have hmem : b.endAddr ∈ blockWords b :=
    (mem_blockWords g hb).mpr ⟨hb.end_aligned, hb.start_le, le_rfl⟩
  have hslotCode : ∃ s, .code (b.endAddr + 4#32) s ∈ exitCode g b b.endAddr := by
    unfold exitCode
    simp only [hdelay, if_true, hslot]
    split_ifs <;> simp
  obtain ⟨s, hs⟩ := hslotCode
  refine ⟨s, ?_⟩
  rw [translateBasicBlock_eq g h hb]
  have hin : .code (b.endAddr + 4#32) s ∈ (blockWords b).flatMap (atWord g b) :=
    mem_flatMap.mpr ⟨_, hmem, by rw [hat]; exact mem_append_right _ hs⟩
  exact mem_append_left _ (mem_cons_of_mem _ hin)

end

end PsxRecomp.CodeGen
