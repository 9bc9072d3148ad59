import Mathlib.Data.Finset.Card
import PsxRecomp.Analysis.Blocks

/-!
# `Analysis/Split.lean` — splitting functions at targets inside them

The pre-pass of `CodeGenerator::generate_file`. A branch or jump whose target is neither a block of its
own function nor the start of any function gets one: the function that contains the target is cut there,
or a new function is made of the gap it lies in. Cutting makes new pieces whose branches leave them, so
the pass is repeated, over the graphs that were rebuilt, until it finds nothing.

`std::sort` orders functions by their start and leaves the order of equal starts open: `Sorter` is any
such function.
-/

set_option autoImplicit false

namespace PsxRecomp

open List Option

/-! ## 1. The pass -/

/-- `std::sort` by `start_addr` -/
structure Sorter where
  sort : List Function → List Function
  perm : ∀ l, (sort l).Perm l
  sorted : ∀ l, (sort l).Pairwise fun f f' => f.startAddr ≤ f'.startAddr

def stableSort : Sorter where
  sort := List.insertionSort fun f f' => f.startAddr ≤ f'.startAddr
  perm l := perm_insertionSort _ l
  sorted l := by
    have : Std.Total fun f f' : Function => f.startAddr ≤ f'.startAddr := ⟨fun _ _ => le_total _ _⟩
    have : IsTrans Function fun f f' => f.startAddr ≤ f'.startAddr := ⟨fun _ _ _ => le_trans⟩
    exact pairwise_insertionSort _ l

structure SplitState where
  /-- `functions_mut` -/
  functions : List Function
  /-- `cfgs_mut` -/
  cfgs : List (Word × ControlFlowGraph)
  /-- `known_addrs` -/
  known : List Word
  /-- `cfgs_to_scan`; empty for all -/
  toScan : List Word

/-- The places a block goes to that `scan_cfg` looks at -/
def exitTargets (b : BasicBlock) : List Word :=
  match b.exitInstr.type with
  | .branch => [b.exitInstr.target, b.exitInstr.address + 8#32]
  | .jump => [b.exitInstr.target]
  | _ => []

def Exe.InImage (exe : Exe) (a : Word) : Prop := exe.loadAddress ≤ a ∧ a < exe.endAddress

instance (exe : Exe) (a : Word) : Decidable (exe.InImage a) := inferInstanceAs (Decidable (_ ∧ _))

def checkTarget (exe : Exe) (known : List Word) (cfg : ControlFlowGraph) (target : Word) : Bool :=
  target ≠ 0#32 && !cfg.hasBlock target && !known.contains target && exe.InImage target && Aligned target

def scanCfg (exe : Exe) (known : List Word) (cfg : ControlFlowGraph) : List Word :=
  (cfg.blocks.flatMap exitTargets).filter (checkTarget exe known cfg)

namespace SplitState

def scanned (s : SplitState) : List (Word × ControlFlowGraph) :=
  if s.toScan = [] then s.cfgs else s.cfgs.filter fun c => s.toScan.contains c.1

def midTargets (exe : Exe) (s : SplitState) : List Word :=
  Cuts.points (s.scanned.flatMap fun c => scanCfg exe s.known c.2)

end SplitState

/-- The function that contains `t`: the last one that starts before it, if it reaches that far -/
def containing (functions : List Function) (starts : List Word) (t : Word) : Option Function :=
  match (starts.filter (· ≤ t)).getLast? with
  | none => none
  | some start =>
    match functions.find? (·.startAddr = start) with
    | some f => if f.startAddr < t ∧ t < f.endAddr then some f else none
    | none => none

def gapFunction (exe : Exe) (starts : List Word) (t : Word) : Option Function :=
  let gapEnd := (starts.filter (t < ·)).head?.getD exe.endAddress
  if gapEnd ≤ t then none else some { startAddr := t, endAddr := gapEnd }

/-- The end of the first function that starts at `start` -/
def shrinkFirst (start newEnd : Word) : List Function → List Function
  | [] => []
  | f :: fs =>
    if f.startAddr = start then { f with endAddr := newEnd } :: fs else f :: shrinkFirst start newEnd fs

/-- Cut the function at `start`: the functions, and the pieces behind the first cut -/
def splitAt (start : Word) (targets : List Word) (functions : List Function) :
    List Function × List Function :=
  match functions.find? (·.startAddr = start), targets with
  | some f, t :: rest =>
    if f.endAddr ≤ (t :: rest).getLast (by simp) then (functions, [])
    else (shrinkFirst start t functions,
      (Cuts.pieces (t :: rest) f.endAddr).map fun p => { startAddr := p.1, endAddr := p.2 })
  | _, _ => (functions, [])

/-- `cfgs_mut[a] = cfg` -/
def setCfg (a : Word) (cfg : ControlFlowGraph) (cfgs : List (Word × ControlFlowGraph)) :
    List (Word × ControlFlowGraph) :=
  (a, cfg) :: cfgs.filter (·.1 ≠ a)

/-- The functions of a pass: those that remain, the new ones, and the starts of those that were cut -/
structure Cut where
  functions : List Function
  added : List Function
  cut : List Word

/-- The loop over `splits_by_func` -/
def splitAll (groups : List (Word × List Word)) (c : Cut) : Cut :=
  groups.foldl (fun c group =>
    let (functions, pieces) := splitAt group.1 group.2 c.functions
    ⟨functions, c.added ++ pieces, if pieces = [] then c.cut else group.1 :: c.cut⟩) c

/-- One pass that has found `mid` -/
def splitPass (S : Sorter) (exe : Exe) (mid : List Word) (s : SplitState) : SplitState :=
  let functions := S.sort s.functions
  let starts := (functions.filter (·.aliasWalkLo = 0#32)).map (·.startAddr)
  let home (t : Word) := (containing functions starts t).map (·.startAddr)
  let gaps := mid.filter fun t => home t = none
  let groups := ((mid.filterMap home).dedup).map fun start =>
    (start, mid.filter fun t => home t = some start)
  let c := splitAll groups ⟨functions, gaps.filterMap (gapFunction exe starts), []⟩
  let affected := c.cut ++ c.added.map (·.startAddr)
  let functions := S.sort (c.functions ++ c.added)
  let rebuilt := functions.filter fun f => affected.contains f.startAddr
  { functions
    cfgs := rebuilt.foldl (fun m f => setCfg f.startAddr (analyzeFunction exe f) m) s.cfgs
    known := s.known ++ c.added.map (·.startAddr)
    toScan := rebuilt.map (·.startAddr) }

/-- The passes, at most `cap` of them; whether the last one found nothing -/
def splitPasses (S : Sorter) (exe : Exe) : Nat → SplitState → SplitState × Bool
  | 0, s => (s, false)
  | cap + 1, s =>
    if s.midTargets exe = [] then (s, true)
    else splitPasses S exe cap (splitPass S exe (s.midTargets exe) s)

def SplitState.init (functions : List Function) (cfgs : List (Word × ControlFlowGraph)) : SplitState :=
  ⟨functions, cfgs, functions.map (·.startAddr), []⟩

/-! ## 2. Cutting -/

theorem shrinkFirst_starts (start newEnd : Word) (fs : List Function) :
    (shrinkFirst start newEnd fs).map (·.startAddr) = fs.map (·.startAddr) := by
  induction fs with
  | nil => rfl
  | cons f fs ih =>
    rw [shrinkFirst]
    split_ifs
    · rfl
    · rw [map_cons, ih, map_cons]

theorem find_shrinkFirst {start other : Word} (hne : other ≠ start) (newEnd : Word)
    (fs : List Function) : (shrinkFirst start newEnd fs).find? (·.startAddr = other) =
      fs.find? (·.startAddr = other) := by
  induction fs with
  | nil => rfl
  | cons f fs ih =>
    rw [shrinkFirst]
    split_ifs with hf
    · have hother : ¬ f.startAddr = other := fun he => hne (he.symm.trans hf)
      rw [find?_cons_of_neg (by simpa using hother),
        find?_cons_of_neg (by simpa using hother)]
    · simp [find?_cons, ih]

/-- The targets of a group lie in the first function that starts at its key. -/
def InFirst (functions : List Function) (group : Word × List Word) : Prop :=
  group.2 ≠ [] ∧ ∃ f, functions.find? (·.startAddr = group.1) = some f ∧ ∀ t ∈ group.2, t < f.endAddr

theorem splitAt_spec {functions : List Function} {group : Word × List Word}
    (h : InFirst functions group) :
    (splitAt group.1 group.2 functions).1.map (·.startAddr) = functions.map (·.startAddr) ∧
    (splitAt group.1 group.2 functions).2.map (·.startAddr) = group.2 ∧
    ∀ other ≠ group.1, (splitAt group.1 group.2 functions).1.find? (·.startAddr = other) =
      functions.find? (·.startAddr = other) := by
  obtain ⟨start, targets⟩ := group
  obtain ⟨hne, f, hf, hlt⟩ := h
  cases targets with
  | nil => exact absurd rfl hne
  | cons t rest =>
    have hlast : ¬ f.endAddr ≤ (t :: rest).getLast (by simp) :=
      not_le_of_gt (hlt _ (getLast_mem _))
    simp only [splitAt, hf, if_neg hlast]
    refine ⟨shrinkFirst_starts .., ?_, fun other hother => find_shrinkFirst hother ..⟩
    rw [List.map_map]
    exact Cuts.map_fst_pieces ..

theorem splitAll_spec (groups : List (Word × List Word)) (c : Cut)
    (hkeys : (groups.map Prod.fst).Nodup) (h : ∀ group ∈ groups, InFirst c.functions group) :
    (splitAll groups c).functions.map (·.startAddr) = c.functions.map (·.startAddr) ∧
    (splitAll groups c).added.map (·.startAddr) =
      c.added.map (·.startAddr) ++ groups.flatMap Prod.snd := by
  induction groups generalizing c with
  | nil => exact ⟨rfl, by simp [splitAll]⟩
  | cons group groups ih =>
    obtain ⟨hstarts, hadded, hothers⟩ := splitAt_spec (h group mem_cons_self)
    obtain ⟨hkey, hkeys⟩ := nodup_cons.mp hkeys
    have hrest : ∀ g ∈ groups, InFirst (splitAt group.1 group.2 c.functions).1 g := by
      intro g hg
      obtain ⟨hne, f, hf, hlt⟩ := h g (mem_cons_of_mem _ hg)
      refine ⟨hne, f, ?_, hlt⟩
      rw [hothers g.1 fun he => hkey (he ▸ mem_map_of_mem hg), hf]
    obtain ⟨hf, ha⟩ := ih ⟨(splitAt group.1 group.2 c.functions).1,
      c.added ++ (splitAt group.1 group.2 c.functions).2,
      if (splitAt group.1 group.2 c.functions).2 = [] then c.cut else group.1 :: c.cut⟩ hkeys hrest
    refine ⟨hf.trans hstarts, ha.trans ?_⟩
    simp [map_append, hadded, append_assoc, flatMap_cons]

variable {t : Word}

theorem containing_spec {functions : List Function} {starts : List Word} {f : Function}
    (h : containing functions starts t = some f) :
    functions.find? (·.startAddr = f.startAddr) = some f ∧ t < f.endAddr := by
  unfold containing at h
  split at h
  · cases h
  · rename_i start _
    split at h
    · rename_i f' hf'
      split_ifs at h with hin
      cases h
      have hstart : f.startAddr = start := by simpa using find?_some hf'
      exact ⟨hstart ▸ hf', hin.2⟩
    · cases h

variable {exe : Exe}

theorem gapFunction_start (starts : List Word) (h : exe.InImage t) :
    ∃ f, gapFunction exe starts t = some f ∧ f.startAddr = t := by
  have hgap : ¬ (starts.filter (t < ·)).head?.getD exe.endAddress ≤ t := by
    cases hnext : (starts.filter (t < ·)).head? with
    | none => exact not_le_of_gt h.2
    | some a =>
      have ha := mem_of_mem_head? (mem_def.mpr hnext)
      exact not_le_of_gt (by simpa using (mem_filter.mp ha).2)
  exact ⟨_, if_neg hgap, rfl⟩

/-! ## 3. One pass -/

variable {c : Word × ControlFlowGraph}

section
variable (S : Sorter) {exe : Exe} {mid : List Word} (s : SplitState)

theorem splitPass_added (hmid : ∀ t ∈ mid, exe.InImage t) : ∃ added : List Word,
    (∀ t, t ∈ added ↔ t ∈ mid) ∧ (splitPass S exe mid s).known = s.known ++ added ∧
    (∀ t, (∃ f ∈ (splitPass S exe mid s).functions, f.startAddr = t) ↔
      (∃ f ∈ s.functions, f.startAddr = t) ∨ t ∈ added) ∧
    ∀ t ∈ added, t ∈ (splitPass S exe mid s).toScan := by
  unfold splitPass
  extract_lets functions starts home gaps groups c affected functions' rebuilt
  -- every group lies in the first function with its start
  have hgroups : ∀ group ∈ groups, InFirst functions group := by
    intro group hgroup
    obtain ⟨start, hstart, rfl⟩ := mem_map.mp hgroup
    obtain ⟨t, ht, hhome⟩ := mem_filterMap.mp (mem_dedup.mp hstart)
    obtain ⟨f, hf, hfs⟩ := map_eq_some_iff.mp hhome
    refine ⟨ne_nil_of_mem (a := t) (by simp [ht, hhome]), f, hfs ▸ (containing_spec hf).1, ?_⟩
    intro t' ht'
    obtain ⟨-, hhome'⟩ := mem_filter.mp ht'
    obtain ⟨f', hf', hfs'⟩ := map_eq_some_iff.mp (of_decide_eq_true hhome')
    have hfirst := (containing_spec hf').1
    rw [hfs', ← hfs, (containing_spec hf).1] at hfirst
    cases hfirst
    exact (containing_spec hf').2
  have hkeys : (groups.map Prod.fst).Nodup := by
    simpa [groups, List.map_map, Function.comp_def] using nodup_dedup _
  obtain ⟨hfs, hadded⟩ := splitAll_spec groups ⟨functions, gaps.filterMap (gapFunction exe starts), []⟩
    hkeys hgroups
  change c.functions.map _ = _ at hfs
  change c.added.map _ = _ at hadded
  have hgap : (gaps.filterMap (gapFunction exe starts)).map (·.startAddr) = gaps := by
    rw [map_filterMap]
    refine (filterMap_congr (g := some) fun t ht => ?_).trans (filterMap_some ..)
    obtain ⟨f, hf, hft⟩ := gapFunction_start starts (hmid t (mem_of_mem_filter ht))
    rw [hf, map_some, hft]
  refine ⟨c.added.map (·.startAddr), fun t => ?_, rfl, fun t => ?_, fun t ht => ?_⟩
  · -- a target is in a gap or in the group of the function that contains it
    rw [hadded, hgap]
    simp only [mem_append, mem_flatMap, gaps, groups, mem_filter, List.mem_map,
      mem_dedup, mem_filterMap, decide_eq_true_eq]
    constructor
    · rintro (⟨ht, -⟩ | ⟨-, ⟨start, -, rfl⟩, hmem⟩)
      · exact ht
      · exact mem_of_mem_filter hmem
    · intro ht
      cases hhome : home t with
      | none => exact .inl ⟨ht, rfl⟩
      | some start => exact .inr ⟨_, ⟨start, ⟨t, ht, hhome⟩, rfl⟩, by simp [ht, hhome]⟩
  · have hperm : ∀ f, f ∈ functions' ↔ f ∈ c.functions ++ c.added := fun f => (S.perm _).mem_iff
    have hperm0 : ∀ f, f ∈ functions ↔ f ∈ s.functions := fun f => (S.perm _).mem_iff
    have hold : ∀ t, (∃ f ∈ c.functions, f.startAddr = t) ↔ ∃ f ∈ s.functions, f.startAddr = t := by
      intro t
      simp only [← List.mem_map, hfs]
      simp [List.mem_map, hperm0]
    simp [hperm, mem_append, or_and_right, exists_or, hold, List.mem_map]
  · obtain ⟨f, hf, rfl⟩ := mem_map.mp ht
    refine mem_map.mpr ⟨f, mem_filter.mpr ⟨?_, ?_⟩, rfl⟩
    · exact (S.perm _).mem_iff.mpr (mem_append_right _ hf)
    · simpa [affected] using .inr ⟨f, hf, rfl⟩

theorem mem_setCfgs (exe : Exe) (fs : List Function) (cfgs : List (Word × ControlFlowGraph))
    (hc : c ∈ fs.foldl (fun m f => setCfg f.startAddr (analyzeFunction exe f) m) cfgs) :
    c.1 ∈ fs.map (·.startAddr) ∨ c ∈ cfgs := by
  induction fs generalizing cfgs with
  | nil => exact .inr hc
  | cons f fs ih =>
    rcases ih _ hc with hmem | hmem
    · exact .inl (mem_cons_of_mem _ hmem)
    · rcases mem_cons.mp hmem with rfl | hmem
      · exact .inl mem_cons_self
      · exact .inr (mem_of_mem_filter hmem)

end

/-! ## 4. All passes -/

def Closed (exe : Exe) (known : Word → Prop) (cfg : ControlFlowGraph) : Prop :=
  ∀ b ∈ cfg.blocks, ∀ t ∈ exitTargets b, exe.InImage t → Aligned t →
    cfg.hasBlock t = true ∨ known t

theorem Exe.InImage.ne_zero (h : exe.InImage t) : t ≠ 0#32 := by
  rintro rfl
  have hle := BitVec.le_def.mp h.1
  have := exe.kseg0
  simp at hle
  omega

theorem mem_scanCfg {known : List Word} {cfg : ControlFlowGraph} :
    t ∈ scanCfg exe known cfg ↔ (∃ b ∈ cfg.blocks, t ∈ exitTargets b) ∧ cfg.hasBlock t = false ∧
      t ∉ known ∧ exe.InImage t ∧ Aligned t := by
  simp only [scanCfg, mem_filter, mem_flatMap, checkTarget, Bool.and_eq_true,
    Bool.not_eq_true', decide_eq_true_eq, contains_eq_mem, decide_eq_false_iff_not]
  constructor
  · rintro ⟨hb, ⟨⟨⟨-, hblock⟩, hknown⟩, hin⟩, ha⟩
    exact ⟨hb, hblock, hknown, hin, ha⟩
  · rintro ⟨hb, hblock, hknown, hin, ha⟩
    exact ⟨hb, ⟨⟨⟨hin.ne_zero, hblock⟩, hknown⟩, hin⟩, ha⟩

theorem closed_of_scan {known : List Word} {cfg : ControlFlowGraph} {P : Word → Prop}
    (hknown : ∀ t ∈ known, P t) (hopen : ∀ t ∈ scanCfg exe known cfg, P t) : Closed exe P cfg := by
  intro b hb t ht hin ha
  by_cases hblock : cfg.hasBlock t = true
  · exact .inl hblock
  · by_cases hk : t ∈ known
    · exact .inr (hknown t hk)
    · exact .inr (hopen t (mem_scanCfg.mpr ⟨⟨b, hb, ht⟩, by simpa using hblock, hk, hin, ha⟩))

section
variable (S : Sorter) (exe : Exe) {s : SplitState}

/-- What holds between two passes: the known addresses are the function starts, and the graphs that are
not to be scanned are closed. -/
structure Scanned (s : SplitState) : Prop where
  known : ∀ t, t ∈ s.known ↔ ∃ f ∈ s.functions, f.startAddr = t
  closed : s.toScan ≠ [] → ∀ c ∈ s.cfgs, c.1 ∉ s.toScan → Closed exe (· ∈ s.known) c.2

theorem scanned_init (functions : List Function) (cfgs : List (Word × ControlFlowGraph)) :
    Scanned exe (.init functions cfgs) where
  known t := by simp [SplitState.init]
  closed h := absurd rfl h

theorem mem_midTargets : t ∈ s.midTargets exe ↔
    ∃ c ∈ s.scanned, t ∈ scanCfg exe s.known c.2 := by
  simp [SplitState.midTargets]

theorem mem_scanned (hc : c ∈ s.cfgs) (h : s.toScan = [] ∨ c.1 ∈ s.toScan) : c ∈ s.scanned := by
  unfold SplitState.scanned
  split_ifs with hnil
  · exact hc
  · exact mem_filter.mpr ⟨hc, by simpa using h.resolve_left hnil⟩

variable {exe}

theorem Scanned.closed_after (h : Scanned exe s) {P : Word → Prop} (hknown : ∀ t ∈ s.known, P t)
    (hmid : ∀ t ∈ s.midTargets exe, P t) (hc : c ∈ s.cfgs) :
    Closed exe P c.2 := by
  by_cases hscan : s.toScan = [] ∨ c.1 ∈ s.toScan
  · exact closed_of_scan hknown fun t ht => hmid t ((mem_midTargets exe).mpr ⟨c, mem_scanned hc hscan, ht⟩)
  · rw [not_or] at hscan
    intro b hb t ht hin ha
    exact (h.closed hscan.1 c hc hscan.2 b hb t ht hin ha).imp_right (hknown t)

theorem midTargets_inImage : ∀ t ∈ s.midTargets exe, exe.InImage t := by
  intro t ht
  obtain ⟨c, -, ht⟩ := (mem_midTargets exe).mp ht
  exact (mem_scanCfg.mp ht).2.2.2.1

theorem Scanned.pass (h : Scanned exe s) : Scanned exe (splitPass S exe (s.midTargets exe) s) := by
  obtain ⟨added, hmem, hknown, hstarts, -⟩ := splitPass_added S s midTargets_inImage
  constructor
  · intro t
    rw [hknown, hstarts, mem_append, h.known]
  · intro _ c hc hnot
    have hold := (mem_setCfgs exe _ _ hc).resolve_left hnot
    rw [hknown]
    exact h.closed_after (fun t ht => mem_append_left _ ht)
      (fun t ht => mem_append_right _ ((hmem t).mpr ht)) hold

theorem Scanned.pass_adds (h : Scanned exe s) (hmid : s.midTargets exe ≠ []) :
    ∃ f ∈ (splitPass S exe (s.midTargets exe) s).functions, exe.InImage f.startAddr ∧
      Aligned f.startAddr ∧ ∀ f' ∈ s.functions, f'.startAddr ≠ f.startAddr := by
  obtain ⟨added, hmem, -, hstarts, -⟩ := splitPass_added S s midTargets_inImage
  obtain ⟨t, ht⟩ := exists_mem_of_ne_nil _ hmid
  obtain ⟨c, -, hscan⟩ := (mem_midTargets exe).mp ht
  obtain ⟨-, -, hnew, hin, ha⟩ := mem_scanCfg.mp hscan
  obtain ⟨f, hf, rfl⟩ := (hstarts t).mpr (.inr ((hmem t).mpr ht))
  exact ⟨f, hf, hin, ha, fun f' hf' he => hnew ((h.known _).mpr ⟨f', hf', he⟩)⟩

inductive Visited (exe : Exe) (s₀ : SplitState) : SplitState → Prop
  | start : Visited exe s₀ s₀
  | pass {s : SplitState} : Visited exe s₀ s → s.midTargets exe ≠ [] →
      Visited exe s₀ (splitPass S exe (s.midTargets exe) s)

theorem Visited.scanned {s₀ : SplitState} (h₀ : Scanned exe s₀) (h : Visited S exe s₀ s) :
    Scanned exe s := by
  induction h with
  | start => exact h₀
  | pass _ _ ih => exact ih.pass S

theorem Scanned.converged (h : Scanned exe s) (cap : Nat) {s' : SplitState}
    (hconv : splitPasses S exe cap s = (s', true)) (hc : c ∈ s'.cfgs) :
    Closed exe (fun t => ∃ f ∈ s'.functions, f.startAddr = t) c.2 := by
  induction cap generalizing s with
  | zero => simp [splitPasses] at hconv
  | succ cap ih =>
    rw [splitPasses] at hconv
    split_ifs at hconv with hmid
    · cases hconv
      exact h.closed_after (fun t ht => (h.known t).mp ht) (by simp [hmid]) hc
    · exact ih (h.pass S) hconv

def imageWords (exe : Exe) : List Word :=
  (List.range ((exe.codeData.length + 3) / 4)).map fun i =>
    BitVec.ofNat 32 (4 * ((exe.loadAddress.toNat + 3) / 4 + i))

theorem mem_imageWords (hin : exe.InImage t) (ha : Aligned t) : t ∈ imageWords exe := by
  have hlo := BitVec.le_def.mp hin.1
  have hhi := BitVec.lt_def.mp hin.2
  rw [exe.toNat_endAddress] at hhi
  have ha : t.toNat % 4 = 0 := ha
  refine mem_map.mpr ⟨t.toNat / 4 - (exe.loadAddress.toNat + 3) / 4, mem_range.mpr ?_, ?_⟩
  · omega
  · apply BitVec.eq_of_toNat_eq
    rw [BitVec.toNat_ofNat]
    omega

def openWords (exe : Exe) (s : SplitState) : Finset Word :=
  (imageWords exe).toFinset.filter (· ∉ s.known)

theorem Scanned.pass_openWords (h : Scanned exe s) (hmid : s.midTargets exe ≠ []) :
    (openWords exe (splitPass S exe (s.midTargets exe) s)).card < (openWords exe s).card := by
  obtain ⟨added, -, hknown, -, -⟩ := splitPass_added S s midTargets_inImage
  obtain ⟨f, hf, hin, ha, hnew⟩ := h.pass_adds S hmid
  apply Finset.card_lt_card
  refine Finset.ssubset_iff_of_subset ?_ |>.mpr ⟨f.startAddr, ?_, ?_⟩
  · apply Finset.monotone_filter_right
    intro t _ hnot hold
    exact hnot (by rw [hknown]; exact mem_append_left _ hold)
  · refine Finset.mem_filter.mpr ⟨by simpa using mem_imageWords hin ha, ?_⟩
    intro hold
    obtain ⟨f', hf', he⟩ := (h.known _).mp hold
    exact hnew f' hf' he
  · intro hmem
    exact (Finset.mem_filter.mp hmem).2 (((h.pass S).known _).mpr ⟨f, hf, rfl⟩)

theorem Scanned.converges (h : Scanned exe s) (cap : Nat) (hcap : (openWords exe s).card < cap) :
    (splitPasses S exe cap s).2 = true := by
  induction cap generalizing s with
  | zero => exact absurd hcap (Nat.not_lt_zero _)
  | succ cap ih =>
    rw [splitPasses]
    split_ifs with hmid
    · rfl
    · have := h.pass_openWords S hmid
      exact ih (h.pass S) (by omega)

theorem card_openWords_le (exe : Exe) (s : SplitState) :
    (openWords exe s).card ≤ (exe.codeData.length + 3) / 4 :=
  calc (openWords exe s).card ≤ (imageWords exe).toFinset.card := Finset.card_filter_le ..
    _ ≤ (imageWords exe).length := toFinset_card_le _
    _ = (exe.codeData.length + 3) / 4 := by simp [imageWords]

end

/-- For every image, function list and map of graphs: each pass that finds targets adds a function start,
so that the loop ends within one pass for each word of the image; and when it ends, in every graph of the
map every aligned target and fall-through in the image is a block of that graph or a function start. -/
theorem split_closed (S : Sorter) (exe : Exe) (functions : List Function)
    (cfgs : List (Word × ControlFlowGraph)) :
    (∀ s, Visited S exe (.init functions cfgs) s → s.midTargets exe ≠ [] →
      ∃ f ∈ (splitPass S exe (s.midTargets exe) s).functions,
        ∀ f' ∈ s.functions, f'.startAddr ≠ f.startAddr) ∧
    (∀ cap, (exe.codeData.length + 3) / 4 < cap →
      (splitPasses S exe cap (.init functions cfgs)).2 = true) ∧
    ∀ cap s, splitPasses S exe cap (.init functions cfgs) = (s, true) →
      ∀ c ∈ s.cfgs, ∀ b ∈ c.2.blocks, ∀ t ∈ exitTargets b, exe.InImage t → Aligned t →
        c.2.hasBlock t = true ∨ ∃ f ∈ s.functions, f.startAddr = t := by
  have h₀ := scanned_init exe functions cfgs
  refine ⟨fun s hs hmid => ?_, fun cap hcap => ?_, fun cap s hconv c hc => ?_⟩
  · obtain ⟨f, hf, -, -, hnew⟩ := (hs.scanned S h₀).pass_adds S hmid
    exact ⟨f, hf, hnew⟩
  · exact h₀.converges S cap (lt_of_le_of_lt (card_openWords_le ..) hcap)
  · exact h₀.converged S cap hconv hc

/-- A branch to itself -/
def spinExe : Exe := textExe [0x1000FFFF#32, 0#32] (by decide)

/-- The pre-pass finds nothing to split, but the fall-through of the branch lies behind the image: it is
no block and no function start. -/
theorem fall_through_behind_image :
    let f : Function := { startAddr := 0x80010000#32, endAddr := 0x80010008#32 }
    let s := SplitState.init [f] [(f.startAddr, analyzeFunction spinExe f)]
    splitPasses stableSort spinExe 1 s = (s, true) ∧
    ∃ c ∈ s.cfgs, ∃ b ∈ c.2.blocks, b.exitInstr.type = .branch ∧
      c.2.hasBlock (b.exitInstr.address + 8#32) = false ∧
      ∀ f ∈ s.functions, f.startAddr ≠ b.exitInstr.address + 8#32 := by
  intro f s
  have hmid : s.midTargets spinExe = [] := by decide
  refine ⟨by rw [splitPasses, if_pos hmid], _, mem_singleton_self _,
    ⟨0x80010000#32, 0x80010004#32, 2#32, analyzeInstruction 0x80010000#32 0x1000FFFF#32,
      [0x80010000#32]⟩, by decide, by decide, by decide, by decide⟩

end PsxRecomp
