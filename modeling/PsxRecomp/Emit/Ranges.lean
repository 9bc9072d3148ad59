import PsxRecomp.Lib.Intervals
import PsxRecomp.Emit.BlockText

/-!
# `Emit/Ranges.lean` — `CodeGenerator::generate_ranges_manifest`

The manifest tells the overlay loader which bytes a compiled function was made from: an `F` line with
the entry and `R` lines with the joined extents of the blocks. The loader compares those bytes before it
runs the function.
-/

set_option autoImplicit false

namespace PsxRecomp.CodeGen

open Intervals List BitVec

/-! ## 1. The manifest -/

inductive Line where
  /-- `F <entry>` -/
  | func (entry : Word)
  /-- `R <lo> <len>` -/
  | range (lo len : Word)
  deriving DecidableEq, Repr

def blockIntervals (cfg : ControlFlowGraph) : List (Word × Word) :=
  cfg.blocks.filterMap fun b =>
    if b.startAddr < b.endAddr + 4#32 then some (b.startAddr, b.endAddr + 4#32) else none

def functionLines (f : Function) (cfg : ControlFlowGraph) : List Line :=
  let iv := blockIntervals cfg
  if iv = [] then []
  else .func f.startAddr :: (coalesce iv).map fun r => .range r.1 (r.2 - r.1)

/-- `{:X}` with at least `width` digits -/
def hex (width : Nat) (v : Word) : String :=
  let digits := (Nat.toDigits 16 v.toNat).map Char.toUpper
  String.ofList (List.replicate (width - digits.length) '0' ++ digits)

def Line.text : Line → String
  | .func entry => "F " ++ hex 8 entry ++ "\n"
  | .range lo len => "R " ++ hex 8 lo ++ " " ++ hex 0 len ++ "\n"

/-- `generate_ranges_manifest`, line by line -/
def generateRangesManifest (functions : List Function) (cfgs : Word → Option ControlFlowGraph) :
    List String :=
  ["# psxrecomp overlay code-range manifest v1\n",
    "# F <entry>   one per function (virtual entry address)\n",
    "# R <lo> <len>  one per coalesced code range (hex, virtual)\n"] ++
  functions.flatMap fun f => (cfgs f.startAddr).elim [] fun cfg => (functionLines f cfg).map Line.text

/-! ## 2. What the ranges cover -/

def ranges (lines : List Line) : List (Word × Word) :=
  lines.filterMap fun
    | .range lo len => some (lo, len)
    | .func _ => none

/-- The byte `x` is in one of the ranges. -/
def InRanges (lines : List Line) (x : Word) : Prop :=
  ∃ r ∈ ranges lines, r.1.toNat ≤ x.toNat ∧ x.toNat < r.1.toNat + r.2.toNat

theorem blockIntervals_nonempty (cfg : ControlFlowGraph) : ∀ p ∈ blockIntervals cfg, p.1 < p.2 := by
  intro p hp
  obtain ⟨b, -, hb⟩ := mem_filterMap.mp hp
  split_ifs at hb with hlt
  cases hb
  exact hlt

theorem ranges_functionLines (f : Function) (cfg : ControlFlowGraph) :
    ranges (functionLines f cfg) = (coalesce (blockIntervals cfg)).map fun r => (r.1, r.2 - r.1) := by
  unfold functionLines
  dsimp only
  split_ifs with hnil
  · rw [hnil]
    rfl
  · simp [ranges, filterMap_map]

theorem toNat_range {cfg : ControlFlowGraph} {r : Word × Word}
    (hr : r ∈ coalesce (blockIntervals cfg)) : r.1.toNat + (r.2 - r.1).toNat = r.2.toNat := by
  have hlt := lt_def.mp (coalesce_nonempty (blockIntervals_nonempty cfg) r hr)
  rw [toNat_sub_of_le (by rw [le_def]; omega)]
  omega

theorem ranges_pairwise (f : Function) (cfg : ControlFlowGraph) :
    (ranges (functionLines f cfg)).Pairwise fun p q => p.1.toNat + p.2.toNat < q.1.toNat := by
  rw [ranges_functionLines, pairwise_map]
  refine (coalesce_pairwise (blockIntervals_nonempty cfg)).imp_of_mem ?_
  intro p q hp _ hpq
  simp only [toNat_range hp]
  exact lt_def.mp hpq

theorem inRanges_iff (f : Function) (cfg : ControlFlowGraph) (x : Word) :
    InRanges (functionLines f cfg) x ↔ ∃ b ∈ cfg.blocks, b.Covers x := by
  have hcov : Covered x (coalesce (blockIntervals cfg)) ↔ Covered x (blockIntervals cfg) :=
    covered_coalesce (blockIntervals_nonempty cfg)
  have hin : InRanges (functionLines f cfg) x ↔ Covered x (coalesce (blockIntervals cfg)) := by
    rw [InRanges, ranges_functionLines]
    constructor
    · rintro ⟨r, hr, hlo, hhi⟩
      obtain ⟨q, hq, rfl⟩ := List.mem_map.mp hr
      rw [toNat_range hq] at hhi
      exact ⟨q, hq, le_def.mpr hlo, lt_def.mpr hhi⟩
    · rintro ⟨q, hq, hlo, hhi⟩
      refine ⟨_, List.mem_map_of_mem hq, le_def.mp hlo, ?_⟩
      rw [toNat_range hq]
      exact lt_def.mp hhi
  rw [hin, hcov]
  constructor
  · rintro ⟨r, hr, hlo, hhi⟩
    obtain ⟨b, hb, hsome⟩ := mem_filterMap.mp hr
    split_ifs at hsome
    cases hsome
    exact ⟨b, hb, hlo, hhi⟩
  · rintro ⟨b, hb, hlo, hhi⟩
    refine ⟨(b.startAddr, b.endAddr + 4#32), mem_filterMap.mpr ⟨b, hb, ?_⟩, hlo, hhi⟩
    rw [if_pos (lt_of_le_of_lt hlo hhi)]

/-! ## 3. What the body is made from -/

/-- The four bytes of the word at `a` are in the ranges. -/
def WordInRanges (lines : List Line) (a : Word) : Prop :=
  ∀ x : Word, a.toNat ≤ x.toNat → x.toNat < a.toNat + 4 → InRanges lines x

theorem functionLines_infix {functions : List Function} {cfgs : Word → Option ControlFlowGraph} {f : Function}
    {cfg : ControlFlowGraph} (hf : f ∈ functions) (hcfg : cfgs f.startAddr = some cfg) :
    (functionLines f cfg).map Line.text <:+: generateRangesManifest functions cfgs := by
  refine (infix_of_mem_flatten (mem_map.mpr ⟨f, hf, ?_⟩)).trans (suffix_append _ _).isInfix
  rw [hcfg]
  rfl

/-- The lines written for `f`, whose blocks `live` are in the emitted body. They stand together in the
manifest of any program `f` is in. The ranges are in order, disjoint and not adjacent, and cover exactly
the bytes of the blocks. They hold every word the body is translated from if and only if no emitted
block has a readable delay slot behind the function, from where it is cloned. -/
theorem ranges_exact_iff (g : Context) (f : Function) (h : Readable g.exe f)
    (hcfg : g.cfg = analyzeFunction g.exe f) (live : BasicBlock → Prop) :
    (∀ functions cfgs, f ∈ functions → cfgs f.startAddr = some g.cfg →
      (functionLines f g.cfg).map Line.text <:+: generateRangesManifest functions cfgs) ∧
    (ranges (functionLines f g.cfg)).Pairwise (fun p q => p.1.toNat + p.2.toNat < q.1.toNat) ∧
    (∀ x, InRanges (functionLines f g.cfg) x ↔ ∃ b ∈ g.cfg.blocks, b.Covers x) ∧
    ((∀ b ∈ g.cfg.blocks, live b → ∀ a s, .code a s ∈ translateBasicBlock g b →
        WordInRanges (functionLines f g.cfg) a) ↔
      ∀ b ∈ g.cfg.blocks, live b → b.endAddr + 4#32 = f.endAddr → ¬ SlotOutside g.exe b) := by
  refine ⟨fun _ _ => functionLines_infix, ranges_pairwise f g.cfg, inRanges_iff f g.cfg, ?_⟩
  have hwf := h.wellFormed
  simp only [WordInRanges, inRanges_iff, hcfg]
  constructor
  · intro hall b hb hlive hlast hout
    -- the word behind the function is in no block
    have hbo := blockOf_of_mem h hb
    obtain ⟨s, hs⟩ := slot_code_mem g h hbo hout
    obtain ⟨b', hb', hcov⟩ := hall b hb hlive _ s hs f.endAddr (by rw [hlast]) (by rw [hlast]; omega)
    have hcov := lt_def.mp hcov.2
    have hbo' := (blockOf_of_mem h hb').end_lt
    rw [toNat_add, show (4#32).toNat = 4 from rfl] at hcov
    omega
  · intro hnone b hb hlive a s hs x hlo hhi
    have hbo := blockOf_of_mem h hb
    have hend := hbo.end_lt
    have hloB := hbo.lo_le
    rcases code_mem g h hbo hs with ⟨haA, hab, hae⟩ | ⟨rfl, hout⟩
    · refine ⟨b, hb, le_def.mpr (by omega), lt_def.mpr ?_⟩
      rw [toNat_add, show (4#32).toNat = 4 from rfl]
      omega
    · -- a slot behind the block that is not behind the function is in the next block
      have hne := fun hlast => hnone b hb hlive hlast hout
      have hnat : (b.endAddr + 4#32).toNat = b.endAddr.toNat + 4 := by
        rw [toNat_add, show (4#32).toNat = 4 from rfl]
        omega
      have hne' : b.endAddr.toNat + 4 ≠ f.endAddr.toNat := fun he =>
        hne (eq_of_toNat_eq (hnat.trans he))
      have hfA : f.endAddr.toNat % 4 = 0 := h.end_aligned
      have heA := hbo.end_aligned
      obtain ⟨b', ⟨hb', hcov⟩, -⟩ := hwf.covers x
        ⟨le_def.mpr (by have := hbo.start_le; omega), lt_def.mpr (by omega)⟩
      exact ⟨b', hb', hcov⟩

/-- A function of a `jr $ra` and its slot -/
theorem ranges_exact_return :
    let g : Context := ⟨returnExe, {}, analyzeFunction returnExe (textFunction 2), [], []⟩
    Readable returnExe (textFunction 2) ∧ ∀ b ∈ g.cfg.blocks, ∀ a s, .code a s ∈ translateBasicBlock g b →
      WordInRanges (functionLines (textFunction 2) g.cfg) a := by
  intro g
  have hread : Readable g.exe (textFunction 2) := readable_text (by decide) (by decide)
  refine ⟨hread, fun b hb => ((ranges_exact_iff g (textFunction 2) hread rfl fun _ => True).2.2.2).mpr
    (fun b hb _ _ hout => ?_) b hb trivial⟩
  have hblocks : g.cfg.blocks = [⟨0x80010000#32, 0x80010004#32, 2#32,
      analyzeInstruction 0x80010000#32 0x03E00008#32, []⟩] := by decide
  rw [hblocks, mem_singleton] at hb
  rw [hb] at hout
  exact absurd hout.2.1 (by decide)

/-- The same two words with the function cut before the slot -/
def cutFunction : Function := { startAddr := 0x80010000#32, endAddr := 0x80010004#32 }

def cutContext : Context := ⟨returnExe, {}, analyzeFunction returnExe cutFunction, [], []⟩

/-- The slot is translated into the body, and the manifest names only the `jr`. -/
theorem cloned_slot_not_in_ranges :
    ranges (functionLines cutFunction cutContext.cfg) = [(0x80010000#32, 4#32)] ∧
    ∃ b ∈ cutContext.cfg.blocks, ∃ s, .code 0x80010004#32 s ∈ translateBasicBlock cutContext b ∧
      ¬ InRanges (functionLines cutFunction cutContext.cfg) 0x80010004#32 := by
  have hranges : ranges (functionLines cutFunction cutContext.cfg) = [(0x80010000#32, 4#32)] := by
    decide
  refine ⟨hranges, ⟨0x80010000#32, 0x80010000#32, 1#32,
    analyzeInstruction 0x80010000#32 0x03E00008#32, []⟩, by decide, _,
    mem_cons_of_mem _ (mem_cons_of_mem _ mem_cons_self), ?_⟩
  rintro ⟨r, hr, -, hhi⟩
  rw [hranges, mem_singleton] at hr
  rw [hr] at hhi
  exact absurd hhi (by decide)

end PsxRecomp.CodeGen
