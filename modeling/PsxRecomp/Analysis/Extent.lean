import Mathlib.Data.List.MinMax
import PsxRecomp.Lib.Worklist
import PsxRecomp.Analysis.Blocks

/-!
# `Analysis/Extent.lean` — where a function ends

The two walks of `recompiler/src/function_analysis.cpp` that give a function its end: that of
`analyze_exact_entries`, for overlays, and `compute_extent_p3`, for the game, which does not go on
behind a word whose primary opcode the PS1 does not have. The end is one word behind the greatest
address seen. Both put the delay slot of a transfer into the set without walking it.
-/

set_option autoImplicit false

namespace PsxRecomp.Extent

open List Option BitVec Worklist

/-! ## 1. The walks -/

inductive ExactCf where
  | normal
  | branch (target : Word)
  | jump (target : Word)
  | jal (target : Word)
  | jrRa
  | jrOther (rs : Reg)
  | jalr
  deriving DecidableEq, Repr

def exactClassifyCf (pc instr : Word) : ExactCf :=
  let opcode := opField instr
  let funct := functField instr
  if opcode = 0x00#6 ∧ funct = 0x08#6 then
    if rsField instr = 31#5 then .jrRa else .jrOther (rsField instr)
  else if opcode = 0x00#6 ∧ funct = 0x09#6 then .jalr
  else if opcode = 0x02#6 then .jump (jumpTarget pc instr)
  else if opcode = 0x03#6 then .jal (jumpTarget pc instr)
  else if opcode = 0x01#6 ∨ 0x04#6 ≤ opcode ∧ opcode ≤ 0x07#6 ∨ 0x14#6 ≤ opcode ∧ opcode ≤ 0x17#6 then
    .branch (branchTarget pc instr)
  else .normal

/-- `valid_primary_p3` -/
def validPrimary (instr : Word) : Bool :=
  let op := opField instr
  decide (op ≤ 0x10#6 ∨ 0x20#6 ≤ op ∧ op ≤ 0x26#6 ∨ 0x28#6 ≤ op ∧ op ≤ 0x2B#6 ∨
    op ∈ [0x12#6, 0x2E#6, 0x30#6, 0x32#6, 0x38#6, 0x3A#6])

/-- The arguments of the walk, and whether it is that of `compute_extent_p3` -/
structure ExactWalk where
  exe : Exe
  entry : Word
  hardCap : Word
  p3 : Bool

namespace ExactWalk
variable (w : ExactWalk)

def inFunction (a : Word) : Bool :=
  decide (w.exe.loadAddress ≤ a ∧ a < w.exe.endAddress ∧ Aligned a ∧ w.entry ≤ a ∧ a < w.hardCap)

/-- `find_jump_table_targets`, `resolve_jt_p3` -/
def tableTargets (jrPc : Word) (jrRs : Reg) : List Word :=
  let t := TableScan.scan w.exe w.entry jrRs 40 (jrPc - 4#32) {}
  match t.lui with
  | some lui =>
    if 0#32 < t.count ∧ t.count < 512#32 then
      let tableBase := lui + t.addiu.1.getD 0#32 + t.lwOffset
      ((List.range t.count.toNat).filterMap fun i =>
        w.exe.readWord (tableBase + BitVec.ofNat 32 (4 * i))).filter w.inFunction
    else []
  | none => []

/-- The cases of the switch: the delay slot is marked, the rest put into the queue. -/
def follow (pc : Word) (cf : ExactCf) : Worklist.Expansion Word :=
  let delay := [pc + 4#32].filter w.inFunction
  match cf with
  | .normal => ⟨[], [pc + 4#32].filter w.inFunction⟩
  | .branch target => ⟨delay, [pc + 8#32, target].filter w.inFunction⟩
  | .jump target => ⟨delay, [target].filter w.inFunction⟩
  | .jal _ | .jalr => ⟨delay, [pc + 8#32].filter w.inFunction⟩
  | .jrRa => ⟨delay, []⟩
  | .jrOther rs => ⟨delay, (w.tableTargets pc rs).filter w.inFunction⟩

def expand (pc : Word) : Option (Worklist.Expansion Word) :=
  (w.exe.readWord pc).map fun instr =>
    if w.p3 = true ∧ validPrimary instr = false then ⟨[], []⟩
    else w.follow pc (exactClassifyCf pc instr)

/-- What is taken from the queue is skipped unless it is in the function and the image has a word there. -/
def walkable (pc : Word) : Bool := w.inFunction pc && (w.exe.readWord pc).isSome

def walk : Option (Worklist.State Word) := Worklist.walk w.walkable w.expand (.init w.entry)

/-- The end of the function: one word behind `*visited.rbegin()` -/
def terminus (s : Worklist.State Word) : Word :=
  if s.visited = [] then w.entry
  else BitVec.ofNat 32 ((s.visited.map BitVec.toNat).foldr max 0) + 4#32

/-! ## 2. The flow of the machine -/

/-- Where the machine goes on after the instruction at `pc`, the delay slot of a transfer done -/
def nexts (pc : Word) : ExactCf → List Word
  | .normal => [pc + 4#32]
  | .branch target => [pc + 8#32, target]
  | .jump target => [target]
  | .jal _ | .jalr => [pc + 8#32]
  | .jrRa => []
  | .jrOther rs => w.tableTargets pc rs

def Next (a b : Word) : Prop :=
  ∃ instr, w.exe.readWord a = some instr ∧ b ∈ w.nexts a (exactClassifyCf a instr) ∧
    w.inFunction b = true

inductive Reach : Word → Prop
  | entry : w.inFunction w.entry = true → Reach w.entry
  | next {a b : Word} : Reach a → w.Next a b → Reach b

/-- What follows the delay slot of a transfer at `a`, if the slot is reached as an instruction, follows
the transfer too. -/
def SlotOk (a : Word) : Prop := w.Reach (a + 4#32) → ∀ b, w.Next (a + 4#32) b → w.Next a b

/-- What is asked of a turn of the loop that walks `a` -/
structure VisitOk (s : Worklist.State Word) (a : Word) : Prop where
  word : ∃ instr, w.exe.readWord a = some instr ∧ (w.p3 = true → validPrimary instr = true)
  slot : ∀ e, w.expand a = some e → a + 4#32 ∈ e.mark → a + 4#32 ∉ s.visited → w.SlotOk a

def StepOk (s : Worklist.State Word) : Prop :=
  ∀ a work, s.work = a :: work → a ∉ s.visited → w.inFunction a = true → w.VisitOk s a

abbrev Reached : Worklist.State Word → Prop :=
  Runs.Reached (fun (_ : Unit) => Worklist.step w.walkable w.expand) (fun _ _ => True)
    (· = .init w.entry)

/-! ## 3. The walk covers the flow -/

structure Sound (s : Worklist.State Word) : Prop
    extends Worklist.Followed w.inFunction w.expand w.entry s where
  words : ∀ a ∈ s.walked, ∀ instr, w.exe.readWord a = some instr → w.p3 = true →
    validPrimary instr = true
  slots : Worklist.Marked (fun t x => x = t + 4#32 ∧ w.SlotOk t) s

variable {w} {a b : Word} {e : Worklist.Expansion Word} {s s' : Worklist.State Word}

theorem mem_mark (he : w.expand a = some e) (hb : b ∈ e.mark) :
    b = a + 4#32 ∧ w.inFunction b = true := by
  obtain ⟨instr, -, rfl⟩ := map_eq_some_iff.mp he
  split_ifs at hb
  · cases hb
  · cases hcf : exactClassifyCf a instr <;> rw [hcf] at hb
    case normal => cases hb
    all_goals
      obtain ⟨hmem, hin⟩ := mem_filter.mp hb
      exact ⟨mem_singleton.mp hmem, hin⟩

theorem next_mem_push (he : w.expand a = some e) (hnext : w.Next a b)
    (hw : ∀ instr, w.exe.readWord a = some instr → w.p3 = true → validPrimary instr = true) :
    b ∈ e.push := by
  obtain ⟨instr, hinstr, hmem, hin⟩ := hnext
  rw [expand, hinstr, map_some, if_neg fun h => by simp [hw instr hinstr h.1] at h] at he
  obtain rfl := some.inj he
  cases hcf : exactClassifyCf a instr <;> rw [hcf] at hmem
  case jrRa => cases hmem
  all_goals exact mem_filter.mpr ⟨hmem, hin⟩

/-- Where a turn meets the condition, it skips only what is not in the function or was seen. -/
theorem step_eq (hok : w.StepOk s) :
    Worklist.step w.walkable w.expand s = Worklist.step w.inFunction w.expand s := by
  unfold step
  split
  · rfl
  · rename_i a work hw
    have hiff : (a ∈ s.visited ∨ w.walkable a = false) ↔ (a ∈ s.visited ∨ w.inFunction a = false) := by
      by_cases hv : a ∈ s.visited
      · simp [hv]
      · cases hin : w.inFunction a with
        | false => simp [walkable, hin]
        | true =>
          obtain ⟨instr, hinstr, -⟩ := (hok a work hw hv hin).word
          simp [walkable, hin, hinstr]
    simp [hiff]

theorem Sound.step (h : w.Sound s) (hok : w.StepOk s)
    (hs : Worklist.step w.walkable w.expand s = some s') : w.Sound s' := by
  rw [step_eq hok] at hs
  refine ⟨h.toFollowed.step hs, ?_, h.slots.step hs fun a work e hw hv hin he m hm hnew => ?_⟩
  · obtain ⟨-, rfl⟩ | ⟨a, work, -, -, rfl⟩ | ⟨a, work, e, hw, hv, hin, -, rfl⟩ := step_cases hs
    · exact h.words
    · exact h.words
    · intro x hx instr hinstr
      rcases mem_cons.mp hx with rfl | hx
      · obtain ⟨instr', hinstr', hvalid⟩ := (hok x work hw hv hin).word
        obtain rfl : instr' = instr := some.inj (hinstr'.symm.trans hinstr)
        exact hvalid
      · exact h.words x hx instr hinstr
  · obtain ⟨rfl, -⟩ := mem_mark he hm
    exact ⟨rfl, (hok a work hw hv hin).slot e he hm hnew⟩

section
variable (h : w.Sound s) (hend : s.work = [])
include h hend

theorem Sound.next_visited (ha : a ∈ s.walked) (hnext : w.Next a b) : b ∈ s.visited := by
  obtain ⟨-, -, e, he, -, hpush⟩ := h.walked a ha
  obtain ⟨-, -, -, hin⟩ := id hnext
  exact (hpush b (next_mem_push he hnext (h.words a ha)) hin).resolve_right (by simp [hend])

theorem Sound.reach_visited (ha : w.Reach a) : a ∈ s.visited := by
  induction ha with
  | entry hin => exact (h.toFollowed.entry hin).resolve_right (by simp [hend])
  | @next a b hreach hnext ih =>
    by_cases hwalked : a ∈ s.walked
    · exact h.next_visited hend hwalked hnext
    · -- a delay slot that was not walked: its transfer goes on to the same places
      obtain ⟨t, ht, rfl, hslot⟩ := h.slots a ih hwalked
      exact h.next_visited hend ht (hslot hreach b hnext)

end

theorem Sound.inFunction (h : w.Sound s) (ha : a ∈ s.visited) : w.inFunction a = true := by
  rcases h.seen a ha with hw | ⟨t, -, e, he, hm⟩
  · exact (h.walked a hw).2.1
  · exact (mem_mark he hm).2

theorem Sound.lt_terminus (h : w.Sound s) (ha : a ∈ s.visited) : a < w.terminus s := by
  have hbound : ∀ n ∈ s.visited.map BitVec.toNat, n ≤ 0x80200000 := by
    intro n hn
    obtain ⟨x, hx, rfl⟩ := List.mem_map.mp hn
    have hlt := (of_decide_eq_true (h.inFunction hx)).2.1
    have hend := w.exe.toNat_endAddress
    have hle := w.exe.end_le
    rw [lt_def] at hlt
    omega
  have hmax := max_le_of_forall_le _ _ hbound
  have hle : a.toNat ≤ (s.visited.map BitVec.toNat).foldr max 0 :=
    le_max_of_le (List.mem_map_of_mem ha) le_rfl
  rw [bot_eq_zero] at hmax
  rw [terminus, if_neg (ne_nil_of_mem ha), lt_def, toNat_add, toNat_ofNat]
  simp only [toNat_ofNat]
  omega

end ExactWalk

open ExactWalk

/-- Whatever the image, the entry and the cap: if what follows a slot that is a target too also follows
its transfer, at every turn of the loop, the walk ends with everything reachable in the set and before
the end of the function. -/
theorem extent_covers (w : ExactWalk) (hok : ∀ s, w.Reached s → w.StepOk s) :
    ∃ r, w.walk = some r ∧ ∀ a, w.Reach a → a ∈ r.visited ∧ a < w.terminus r := by
  have htotal : (w.walk).isSome = true := walk_isSome fun a ha => by
    simp only [walkable, Bool.and_eq_true] at ha
    simp [expand, ha.2]
  obtain ⟨r, hr⟩ := Option.isSome_iff_exists.mp htotal
  have hinit : w.Sound (.init w.entry) := ⟨followed_init w.entry, by simp [Worklist.State.init],
    by simp [Worklist.Marked, Worklist.State.init]⟩
  obtain ⟨⟨-, h⟩, hend⟩ := walk_invariant (I := fun s => w.Reached s ∧ w.Sound s)
    (fun s s' hI hs => ⟨.next (a := ()) hI.1 trivial hs, hI.2.step (hok s hI.1) hs⟩)
    ⟨.start rfl, hinit⟩ hr
  exact ⟨r, hr, fun a ha => ⟨h.reach_visited hend ha, h.lt_terminus (h.reach_visited hend ha)⟩⟩

/-- On any image: what is in the set and not reachable is a delay slot. -/
theorem extent_sound (w : ExactWalk) : ∃ r, w.walk = some r ∧ ∀ a ∈ r.visited, w.Reach a ∨
    ∃ t instr, w.Reach t ∧ w.exe.readWord t = some instr ∧ exactClassifyCf t instr ≠ .normal ∧
      a = t + 4#32 := by
  have htotal : w.walk.isSome = true := walk_isSome fun a ha => by simp_all [walkable, expand]
  obtain ⟨r, hr⟩ := isSome_iff_exists.mp htotal
  refine ⟨r, hr, fun a ha => ?_⟩
  have h := walk_sound (P := w.Reach) (fun hin => .entry (by simp_all [walkable])) ?_ hr a ha
  · refine h.imp_right fun ⟨t, e, ht, he, hm⟩ => ?_
    have hslot := (mem_mark he hm).1
    obtain ⟨instr, hinstr, rfl⟩ := map_eq_some_iff.mp he
    refine ⟨t, instr, ht, hinstr, fun hcf => ?_, hslot⟩
    rw [hcf] at hm
    split_ifs at hm <;> cases hm
  · intro a e ha he b hb hin
    obtain ⟨instr, hinstr, rfl⟩ := map_eq_some_iff.mp he
    have hnext : b ∈ w.nexts a (exactClassifyCf a instr) := by
      split_ifs at hb
      · cases hb
      · cases hcf : exactClassifyCf a instr <;> rw [hcf] at hb <;> simp_all [follow, nexts]
    exact ha.next ⟨instr, hinstr, hnext, by simp_all [walkable]⟩

def loopWalk : ExactWalk := ⟨loopExe, 0x80010000#32, 0x80010018#32, true⟩

/-- The addresses of its words -/
def loopWords : List Word := (List.range 6).map fun i => 0x80010000#32 + BitVec.ofNat 32 (4 * i)

theorem mem_loopWords {a : Word} (h : loopWalk.inFunction a = true) : a ∈ loopWords := by
  obtain ⟨-, -, haligned, hlo, hhi⟩ := of_decide_eq_true h
  refine List.mem_map.mpr ⟨(a.toNat - 0x80010000) / 4, ?_⟩
  unfold Aligned at haligned
  change 0x80010000#32 ≤ a at hlo
  change a < 0x80010018#32 at hhi
  rw [mem_range]
  bv_omega

/-- The instructions that `Next` leads to from `a` -/
def ExactWalk.succs (w : ExactWalk) (a : Word) : List Word :=
  (w.exe.readWord a).elim [] fun instr => (w.nexts a (exactClassifyCf a instr)).filter w.inFunction

theorem next_iff {w : ExactWalk} {a b : Word} : w.Next a b ↔ b ∈ w.succs a := by
  unfold Next succs
  cases hread : w.exe.readWord a <;> simp

/-- Both slots are reached as instructions, and what follows them follows their branches. -/
theorem extent_covers_loop : loopWalk.Reach 0x80010004#32 ∧ loopWalk.Reach 0x8001000C#32 ∧
    ∃ r, loopWalk.walk = some r ∧ ∀ a, loopWalk.Reach a → a ∈ r.visited ∧ a < loopWalk.terminus r := by
  have hentry : loopWalk.Reach 0x80010000#32 := .entry (by decide)
  have hX : loopWalk.Reach 0x8001000C#32 := hentry.next (next_iff.mpr (by decide))
  have hbne : loopWalk.Reach 0x80010008#32 := hentry.next (next_iff.mpr (by decide))
  refine ⟨hbne.next (next_iff.mpr (by decide)), hX, ?_⟩
  refine extent_covers loopWalk fun s _ a work _ _ hin => ⟨?_, fun e he hm _ _ b hnext => ?_⟩
  · have hwords : loopWords.all fun a => (loopExe.readWord a).any validPrimary := by decide
    obtain ⟨instr, hinstr, hvalid⟩ :=
      (Option.any_eq_true _ _).mp (List.all_eq_true.mp hwords a (mem_loopWords hin))
    exact ⟨instr, hinstr, fun _ => hvalid⟩
  · have hslots : loopWords.all fun a => (loopWalk.expand a).all fun e => !e.mark.contains (a + 4#32) ||
        (loopWalk.succs (a + 4#32)).all fun b => (loopWalk.succs a).contains b := by decide
    have hall : ∀ b ∈ loopWalk.succs (a + 4#32), b ∈ loopWalk.succs a := by
      simpa [he, hm] using List.all_eq_true.mp hslots a (mem_loopWords hin)
    exact next_iff.mpr (hall b (next_iff.mp hnext))

/-- `beq $1, $2, X; nop; j entry; X: nop; jr $ra; nop`: `X` is the slot of the jump and the target of the
branch. -/
def sharedExe : Exe :=
  textExe [0x10220002#32, 0#32, 0x08004000#32, 0#32, 0x03E00008#32, 0#32] (by decide)

def sharedWalk (p3 : Bool) : ExactWalk := ⟨sharedExe, 0x80010000#32, 0x80010018#32, p3⟩

/-- The machine comes to `a`, and the walk ends the function before it. -/
def Misses (w : ExactWalk) (a : Word) : Prop :=
  w.Reach a ∧ ∃ r, w.walk = some r ∧ a ∉ r.visited ∧ w.terminus r = a

theorem sharedWalk_misses (p3 : Bool) : Misses (sharedWalk p3) 0x80010010#32 := by
  cases p3
  all_goals
    refine ⟨.next (.next (.entry (by decide)) (b := 0x8001000C#32)
      ⟨0x10220002#32, by decide, by decide, by decide⟩) ⟨0#32, by decide, by decide, by decide⟩, ?_⟩
    exact ⟨⟨[0x8001000C#32, 0x80010008#32, 0x80010004#32, 0x80010000#32], [],
      [0x80010008#32, 0x80010000#32]⟩, walk_of_steps 4 (by decide +kernel) rfl,
      by decide, by decide⟩

/-- An instruction that is seen as a slot first and is a target as well is never followed. -/
theorem slot_target_not_followed :
    Misses (sharedWalk false) 0x80010010#32 ∧ Misses (sharedWalk true) 0x80010010#32 :=
  ⟨sharedWalk_misses false, sharedWalk_misses true⟩

end PsxRecomp.Extent
