import PsxRecomp.Lib.Explore
import PsxRecomp.Emit.BlockText

/-!
# `Emit/Labels.lean` — function bodies and their labels

`CodeGenerator::generate_function` and `generate_alias_group`: the text of a body is a `switch` over the
addresses the body can be entered at and then the text of its blocks, for an alias group only of those
that can be reached from an entry. Before that, `scan_jr_tables` collects the entries of jump tables
that lie in the range and are no blocks; `translate_basic_block` puts a label in front of each such
word.
-/

set_option autoImplicit false

namespace PsxRecomp.CodeGen

open CLang Explore List Emitted

/-! ## 1. Bodies -/

/-- The entries of the table of a block that lie in the range -/
def tableEdges (exe : Exe) (cfg : ControlFlowGraph) (b : BasicBlock) : List Word :=
  if b.exitInstr.type = .jumpRegister then
    match jumpTable exe cfg.functionStart b.exitInstr with
    | some table => ((tableEntries exe table).map (ramToRom · exe)).filter fun t =>
        cfg.functionStart ≤ t ∧ t < cfg.functionEnd
    | none => []
  else []

/-- `scan_jr_tables`: the entries that are no blocks -/
def scanJrTables (exe : Exe) (cfg : ControlFlowGraph) : List Word :=
  (cfg.blocks.flatMap (tableEdges exe cfg)).filter (!cfg.hasBlock ·)

/-- The return points of calls, then the leaders without those in `skip` -/
def continuations (blocks : List BasicBlock) (skip : List Word) : List Word :=
  (blocks.filterMap fun b =>
    if (b.exitInstr.type = .jumpLink ∨ b.exitInstr.type = .jumpLinkReg) ∧ b.successors ≠ [] then
      some (b.exitInstr.address + 8#32)
    else none) ++ (blocks.map (·.startAddr)).filter (· ∉ skip)

/-- A body: where its entry switches go to, and its text -/
structure Body where
  cases : List Word
  text : List Emitted

def bodyText (g : Context) (blocks : List BasicBlock) : List Emitted :=
  blocks.flatMap (translateBasicBlock g)

def generateFunction (exe : Exe) (config : Config) (known : List Word) (f : Function)
    (cfg : ControlFlowGraph) : Body :=
  let g : Context := ⟨exe, config, cfg, scanJrTables exe cfg, known⟩
  ⟨(continuations cfg.blocks [f.startAddr]).eraseDups, bodyText g cfg.blocks⟩

def containingBlock (cfg : ControlFlowGraph) (a : Word) : Option Word :=
  (cfg.blocks.find? fun b => b.startAddr ≤ a ∧ a ≤ b.endAddr).map (·.startAddr)

/-- The edges `generate_alias_group` follows -/
def blockEdges (exe : Exe) (cfg : ControlFlowGraph) (a : Word) : List Word :=
  match cfg.blocks.find? (·.startAddr = a) with
  | some b => b.successors.filter cfg.hasBlock ++
      (tableEdges exe cfg b).filterMap (containingBlock cfg)
  | none => []

/-- `live_blocks`, in the order of `block_order` -/
def liveBlocks (exe : Exe) (cfg : ControlFlowGraph) (entries : List Word) : List BasicBlock :=
  let live := explore (cfg.blocks.map (·.startAddr)) (blockEdges exe cfg)
    (entries.filterMap (containingBlock cfg)).reverse []
  cfg.blocks.filter (·.startAddr ∈ live)

def generateAliasGroup (exe : Exe) (config : Config) (known : List Word) (aliases : List Function)
    (cfg : ControlFlowGraph) : Body :=
  let g : Context := ⟨exe, config, cfg, scanJrTables exe cfg, known⟩
  let entries := aliases.map (·.startAddr)
  let blocks := liveBlocks exe cfg entries
  ⟨(continuations blocks entries).eraseDups ++ entries, bodyText g blocks⟩

/-- `materialize_alias_groups`, for one host -/
def aliasGroup (hostStart hostEnd : Word) (entries : List Word) : List Function :=
  entries.map fun a =>
    { startAddr := a, endAddr := hostEnd, aliasWalkLo := hostStart, aliasGroupEntries := entries }

def Emitted.gotos : Emitted → List Word
  | .code _ s => s.gotos
  | _ => []

def Emitted.labels : Emitted → List Word
  | .label a => [a]
  | _ => []

/-- Every `goto` of the body names a label that stands in it once. -/
def Body.LabelsClosed (body : Body) : Prop :=
  ∀ a ∈ body.cases ++ body.text.flatMap Emitted.gotos, (body.text.flatMap Emitted.labels).count a = 1

/-! ## 2. The labels of a block -/

theorem gotos_translateInstruction (config : Config) (instr addr : Word) :
    (translateInstruction config instr addr).gotos = [] := by
  have hassign : ∀ r e, (assign config r e).gotos = [] := by
    intro r e
    unfold assign
    split_ifs <;> rfl
  have hload : ∀ f conv, (load config instr f conv).gotos = [] := by
    intro f conv
    unfold load
    dsimp only
    split_ifs <;> rfl
  unfold translateInstruction
  split
  · unfold translateSpecial
    split <;> first
      | exact hassign _ _
      | rfl
      | (unfold translateSll; dsimp only; split_ifs <;> first | rfl | exact hassign _ _)
  all_goals first
    | exact hassign _ _
    | exact hload _ _
    | rfl
    | (unfold translateAddiu; dsimp only; split_ifs <;> first | rfl | exact hassign _ _)
    | (unfold translateCop0; dsimp only; split_ifs <;> rfl)
    | (unfold translateCop2 gteDataWrite gteCtrlWrite; dsimp only; split_ifs <;> rfl)
    | (unfold translateLwc2 gteDataWrite; split_ifs <;> rfl)

variable {a : Word}

section
variable (g : Context) {b : BasicBlock}

theorem labels_exitCode (x : Word) : (exitCode g b x).flatMap Emitted.labels = [] := by
  unfold exitCode
  dsimp only
  split
  · split_ifs <;> rfl
  · rfl

def inner (b : BasicBlock) (a : Word) : Prop :=
  (a ≠ b.startAddr ∧ a ∈ g.extraLabels) ∧ ¬ (slotInBlock b = true ∧ a = b.endAddr)

instance (b : BasicBlock) (a : Word) : Decidable (inner g b a) := inferInstanceAs (Decidable (_ ∧ _))

theorem labels_atWord (hread : ∃ w, g.exe.readWord a = some w) :
    (atWord g b a).flatMap Emitted.labels = if inner g b a then [a] else [] := by
  obtain ⟨w, hw⟩ := hread
  unfold atWord
  simp only [hw]
  by_cases hslot : slotInBlock b = true ∧ a = b.endAddr
  · rw [if_pos hslot, if_neg (show ¬ inner g b a from fun h => h.2 hslot)]
    rfl
  · rw [if_neg hslot, wordCode, flatMap_append]
    have hcode : (if isControlFlow w then if a = exitBranchAddr b then exitCode g b a else []
        else [code a (translateInstruction g.config w a)]).flatMap labels = [] := by
      split_ifs
      · exact labels_exitCode g a
      · rfl
      · rfl
    rw [hcode, append_nil]
    by_cases hex : a ≠ b.startAddr ∧ a ∈ g.extraLabels
    · rw [if_pos hex, if_pos (show inner g b a from ⟨hex, hslot⟩)]
      rfl
    · rw [if_neg hex, if_neg (show ¬ inner g b a from fun h => hex h.1)]
      rfl

variable {f : Function} (h : Readable g.exe f) (hb : BlockOf g.exe f b)
include h hb

theorem labels_block : (translateBasicBlock g b).flatMap Emitted.labels =
    b.startAddr :: (blockWords b).filter (inner g b ·) := by
  have hwords : ∀ l : List Word, (∀ a ∈ l, ∃ w, g.exe.readWord a = some w) →
      (l.flatMap (atWord g b)).flatMap labels = l.filter (inner g b ·) := by
    intro l hl
    induction l with
    | nil => rfl
    | cons a l ih =>
      rw [flatMap_cons, flatMap_append, labels_atWord g (hl a mem_cons_self),
        ih fun x hx => hl x (mem_cons_of_mem _ hx), filter_cons]
      by_cases hin : inner g b a <;> simp [hin]
  have htail : (if b.exitInstr.type = .none ∧ b.successors = [] ∧ b.endAddr + 4#32 ∈ g.known then
      [tailCall (b.endAddr + 4#32)] else []).flatMap labels = [] := by
    split_ifs <;> rfl
  rw [translateBasicBlock_eq g h hb, flatMap_append, htail, append_nil, flatMap_cons,
    hwords]
  · rfl
  · intro a ha
    obtain ⟨haA, hlo, hhi⟩ := (mem_blockWords g hb).mp ha
    exact hb.readable h haA hlo hhi

theorem mem_labels_block : a ∈ (translateBasicBlock g b).flatMap Emitted.labels ↔
    a = b.startAddr ∨ (a ∈ blockWords b ∧ inner g b a) := by
  rw [labels_block g h hb, mem_cons, mem_filter, decide_eq_true_eq]

end

/-! ## 3. The gotos of a block -/

section
variable (g : Context) {b : BasicBlock}

def transferGotos (b : BasicBlock) : List Word :=
  match b.exitInstr.type with
  | .branch =>
    match b.successors with
    | [taken, notTaken] => [taken, notTaken]
    | _ => [b.exitInstr.target, b.exitInstr.address + 8#32].filter g.cfg.hasBlock
  | .jump => b.successors.take 1
  | .jumpRegister =>
    match jumpTable g.exe g.cfg.functionStart b.exitInstr with
    | some table => (switchTargets g (tableEntries g.exe table)).map Prod.snd
    | none => []
  | _ => []

theorem gotos_jumpTo (a : Word) : (jumpTo g a).gotos = [a].filter g.cfg.hasBlock := by
  unfold jumpTo
  split_ifs with hblock
  · simp [CStmt.gotos, hblock]
  · simp [CStmt.gotos, publish, hblock]

theorem gotos_switchCode (r : Reg) (targets : List (Word × Word)) :
    (switchCode r targets).gotos = targets.map Prod.snd := by
  induction targets with
  | nil => rfl
  | cons t targets ih => rw [switchCode, CStmt.gotos, ih]; rfl

theorem gotos_transferCode (b : BasicBlock) (x : Word) (cond : CE) :
    (transferCode g b x cond).gotos = transferGotos g b := by
  cases ht : b.exitInstr.type with
  | branch =>
    have hlink : (if branchLinks b.exitInstr.instruction
        then CStmt.store (.gpr 31) (cuint (x + 8#32)) else (.skip : CS)).gotos = [] := by
      split_ifs <;> rfl
    have hout : (CStmt.ite cond (jumpTo g b.exitInstr.target)
        (jumpTo g (b.exitInstr.address + 8#32))).gotos =
          [b.exitInstr.target, b.exitInstr.address + 8#32].filter g.cfg.hasBlock := by
      rw [CStmt.gotos, gotos_jumpTo, gotos_jumpTo, ← filter_append]
      rfl
    simp only [transferCode, transferGotos, ht, CStmt.gotos, hlink, nil_append]
    rcases b.successors with _ | ⟨t, _ | ⟨n, _ | ⟨_, _⟩⟩⟩
    · exact hout
    · exact hout
    · rfl
    · exact hout
  | jump =>
    simp only [transferCode, transferGotos, ht]
    cases b.successors with
    | nil => split_ifs <;> rfl
    | cons a rest => rfl
  | jumpRegister =>
    simp only [transferCode, transferGotos, ht]
    cases jumpTable g.exe g.cfg.functionStart b.exitInstr with
    | none => rfl
    | some table => exact gotos_switchCode ..
  | jumpLink => simp [transferCode, transferGotos, ht, CStmt.gotos, publish]
  | jumpLinkReg | ret =>
    simp only [transferCode, transferGotos, ht]
    split_ifs <;> rfl
  | none => simp [transferCode, transferGotos, ht, CStmt.gotos]

theorem gotos_exitCode (x : Word) : (exitCode g b x).flatMap Emitted.gotos = transferGotos g b := by
  have hlink : (linkCode b.exitInstr x).gotos = [] := by
    unfold linkCode
    split
    · rfl
    · dsimp only
      split_ifs <;> rfl
    · split_ifs <;> rfl
    · rfl
  unfold exitCode
  dsimp only
  split
  · split_ifs <;> simp [gotos, CStmt.gotos, hlink, gotos_translateInstruction,
      gotos_transferCode]
  · simp [gotos, hlink, gotos_transferCode]

theorem gotos_atWord {x : Word} (h : a ∈ (atWord g b x).flatMap Emitted.gotos) :
    a ∈ transferGotos g b := by
  unfold atWord at h
  split at h
  · cases h
  · split_ifs at h with hslot
    · cases h
    · rw [wordCode, flatMap_append, mem_append] at h
      rcases h with h | h
      · split_ifs at h <;> simp [gotos] at h
      · split_ifs at h
        · rwa [gotos_exitCode] at h
        · cases h
        · simp [gotos, gotos_translateInstruction] at h

variable {f : Function} (h : Readable g.exe f) (hb : BlockOf g.exe f b)
include h hb

theorem mem_gotos_block :
    a ∈ (translateBasicBlock g b).flatMap Emitted.gotos ↔ a ∈ transferGotos g b := by
  rw [translateBasicBlock_eq g h hb, cons_append, flatMap_cons, flatMap_append]
  have htail : (if b.exitInstr.type = .none ∧ b.successors = [] ∧ b.endAddr + 4#32 ∈ g.known then
      [tailCall (b.endAddr + 4#32)] else []).flatMap gotos = [] := by
    split_ifs <;> rfl
  rw [htail, append_nil, flatMap_assoc]
  show a ∈ [] ++ _ ↔ _
  rw [nil_append, mem_flatMap]
  constructor
  · rintro ⟨x, -, ha⟩
    exact gotos_atWord g ha
  · intro ha
    have hne : b.exitInstr.type ≠ .none := by
      intro hnone
      simp [transferGotos, hnone] at ha
    refine ⟨_, exit_mem_blockWords g hb hne, ?_⟩
    rw [atWord_exit g hb hne, flatMap_append, gotos_exitCode]
    exact mem_append_right _ ha

end

/-! ## 4. Gotos go to successors and to table entries -/

variable {t : Word}

section
variable (g : Context) {b : BasicBlock}

/-- A place has a label: it is a block or one of the extra labels. -/
def Labelled (a : Word) : Prop := g.cfg.hasBlock a = true ∨ a ∈ g.extraLabels

theorem mem_switchTargets_go (entries seen : List Word) (r : Word) :
    r ∈ (switchTargets.go g entries seen).map Prod.snd ↔
      r ∉ seen ∧ Labelled g r ∧ ∃ e ∈ entries, ramToRom e g.exe = r := by
  induction entries generalizing seen with
  | nil => simp [switchTargets.go]
  | cons e rest ih =>
    rw [switchTargets.go, exists_mem_cons_iff]
    by_cases hr : ramToRom e g.exe = r
    · subst hr
      split_ifs with hseen hlabel <;> simp_all [Labelled]
    · split_ifs with hseen hlabel <;> simp [ih, hr, Ne.symm hr]

theorem mem_switchTargets (entries : List Word) (r : Word) :
    r ∈ (switchTargets g entries).map Prod.snd ↔
      Labelled g r ∧ ∃ e ∈ entries, ramToRom e g.exe = r := by
  rw [switchTargets, mem_switchTargets_go]
  simp

variable {g} {f : Function}

structure Context.Of (g : Context) (f : Function) : Prop where
  readable : Readable g.exe f
  cfg : g.cfg = analyzeFunction g.exe f
  extra : g.extraLabels = scanJrTables g.exe g.cfg

variable (h : g.Of f)
include h

theorem Context.Of.hasBlock_iff : g.cfg.hasBlock a = true ↔ a ∈ boundaries g.exe f := by
  rw [h.cfg]
  exact h.readable.hasBlock_iff

theorem Context.Of.contains_of_hasBlock (ha : g.cfg.hasBlock a = true) : f.Contains a :=
  h.readable.leader_contains (h.readable.mem_boundaries.mp (h.hasBlock_iff.mp ha))

theorem Context.Of.mem_tableEdges : t ∈ tableEdges g.exe g.cfg b ↔
    b.exitInstr.type = .jumpRegister ∧ ∃ table, jumpTable g.exe g.cfg.functionStart b.exitInstr =
      some table ∧ (∃ e ∈ tableEntries g.exe table, ramToRom e g.exe = t) ∧ f.Contains t := by
  have hrange : g.cfg.functionStart = f.walkLo ∧ g.cfg.functionEnd = f.endAddr := by
    rw [h.cfg]
    exact ⟨rfl, rfl⟩
  unfold tableEdges
  split_ifs with hjr
  · cases jumpTable g.exe g.cfg.functionStart b.exitInstr with
    | none => simp
    | some table =>
      simp only [mem_filter, mem_map, hrange, decide_eq_true_eq, hjr, true_and,
        Option.some.injEq, exists_eq_left', Function.Contains]
  · simp [hjr]

theorem Context.Of.labelled_of_edge (hb : b ∈ g.cfg.blocks)
    (ht : t ∈ tableEdges g.exe g.cfg b) : Labelled g t := by
  by_cases hblock : g.cfg.hasBlock t = true
  · exact .inl hblock
  · refine .inr ?_
    rw [h.extra]
    exact mem_filter.mpr ⟨mem_flatMap.mpr ⟨b, hb, ht⟩, by simpa using hblock⟩

theorem Context.Of.contains_of_labelled (ht : Labelled g t) : f.Contains t := by
  rcases ht with ht | ht
  · exact h.contains_of_hasBlock ht
  · rw [h.extra] at ht
    obtain ⟨b, -, ht⟩ := mem_flatMap.mp (mem_of_mem_filter ht)
    obtain ⟨-, -, -, -, hc⟩ := (h.mem_tableEdges).mp ht
    exact hc

theorem Context.Of.edge_mem_gotos (hb : b ∈ g.cfg.blocks)
    (ht : t ∈ tableEdges g.exe g.cfg b) : t ∈ transferGotos g b := by
  have hlabel := h.labelled_of_edge hb ht
  obtain ⟨hjr, table, htable, he, -⟩ := h.mem_tableEdges.mp ht
  simp only [transferGotos, hjr, htable]
  exact (mem_switchTargets g _ t).mpr ⟨hlabel, he⟩

theorem Context.Of.gotos_cases (hb : BlockOf g.exe f b) (ha : a ∈ transferGotos g b) :
    a ∈ b.successors ∨ a ∈ tableEdges g.exe g.cfg b := by
  -- a place with a block is a successor, because the boundary it makes is one of the bounds
  have hin : ∀ x, g.cfg.hasBlock x = true →
      x ∈ (if f.Contains x ∧ x ∈ boundaries g.exe f then [x] else []) := by
    intro x hx
    rw [if_pos ⟨h.contains_of_hasBlock hx, h.hasBlock_iff.mp hx⟩]
    exact mem_singleton_self x
  cases ht : b.exitInstr.type with
  | branch =>
    left
    simp only [transferGotos, ht] at ha
    split at ha
    · rename_i hs
      rw [hs]
      exact ha
    · obtain ⟨hmem, hblock⟩ := mem_filter.mp ha
      rw [hb.succ]
      simp only [successors, ht]
      rcases mem_cons.mp hmem with rfl | hmem
      · have hne := h.readable.ne_zero (h.contains_of_hasBlock hblock)
        rw [if_pos hne]
        exact mem_append_left _ (hin _ hblock)
      · rw [mem_singleton.mp hmem] at hblock ⊢
        exact mem_append_right _ (hin _ hblock)
  | jump =>
    simp only [transferGotos, ht] at ha
    exact .inl (mem_of_mem_take ha)
  | jumpRegister =>
    right
    simp only [transferGotos, ht] at ha
    cases htable : jumpTable g.exe g.cfg.functionStart b.exitInstr with
    | none => simp [htable] at ha
    | some table =>
      simp only [htable] at ha
      obtain ⟨hlabel, he⟩ := (mem_switchTargets g _ a).mp ha
      exact h.mem_tableEdges.mpr ⟨ht, table, htable, he, h.contains_of_labelled hlabel⟩
  | _ => simp [transferGotos, ht] at ha

end

/-! ## 5. Closed bodies -/

/-- The table entry is an instruction that can have a label. -/
def EntryOk (cfg : ControlFlowGraph) (t : Word) : Prop :=
  Aligned t ∧ ∀ b ∈ cfg.blocks, slotInBlock b = true → t ≠ b.endAddr

/-- The tables that `blocks` read, as far as they lead into the range -/
def TablesOk (exe : Exe) (cfg : ControlFlowGraph) (blocks : List BasicBlock) : Prop :=
  ∀ b ∈ blocks, ∀ t ∈ tableEdges exe cfg b, EntryOk cfg t

/-- What is written as a body: with a block also the blocks it goes to -/
structure Emits (g : Context) (blocks : List BasicBlock) : Prop where
  sub : blocks.Sublist g.cfg.blocks
  succ : ∀ b ∈ blocks, ∀ a ∈ b.successors, ∃ b' ∈ blocks, b'.startAddr = a
  table : ∀ b ∈ blocks, ∀ t ∈ tableEdges g.exe g.cfg b, Aligned t →
    ∀ b' ∈ g.cfg.blocks, b'.Covers t → b' ∈ blocks

section
variable {g : Context} {f : Function} (h : g.Of f) {blocks : List BasicBlock} (he : Emits g blocks)
  {b : BasicBlock}
include h

theorem Context.Of.block (hb : b ∈ g.cfg.blocks) : BlockOf g.exe f b :=
  blockOf_of_mem h.readable (h.cfg ▸ hb)

theorem Context.Of.block_unique {b' : BasicBlock} (hb : b ∈ g.cfg.blocks) (hb' : b' ∈ g.cfg.blocks)
    (hc : b.Covers a) (hc' : b'.Covers a) : b = b' :=
  h.readable.block_unique (h.cfg ▸ hb) (h.cfg ▸ hb') hc hc'

theorem Context.Of.label_bounds (hb : b ∈ g.cfg.blocks)
    (ha : a ∈ (translateBasicBlock g b).flatMap Emitted.labels) :
    Aligned a ∧ b.startAddr.toNat ≤ a.toNat ∧ a.toNat ≤ b.endAddr.toNat := by
  have hbo := h.block hb
  rcases (mem_labels_block g h.readable hbo).mp ha with rfl | ⟨ha, -⟩
  · exact ⟨hbo.start_aligned, le_rfl, hbo.start_le⟩
  · exact (mem_blockWords g hbo).mp ha

theorem Context.Of.labels_block_nodup (hb : b ∈ g.cfg.blocks) :
    ((translateBasicBlock g b).flatMap Emitted.labels).Nodup := by
  have hbo := h.block hb
  have hwords : (blockWords b).Nodup := by
    refine Nodup.map_on (fun i hi j hj heq => ?_) nodup_range
    have hi := hbo.toNat_word (mem_range.mp hi)
    have hj := hbo.toNat_word (mem_range.mp hj)
    have := congrArg BitVec.toNat heq
    omega
  rw [labels_block g h.readable hbo, nodup_cons]
  refine ⟨fun hmem => ?_, hwords.filter _⟩
  have hinner := decide_eq_true_eq.mp (mem_filter.mp hmem).2
  exact hinner.1.1 rfl

include he

theorem Emits.mem_labels : a ∈ (bodyText g blocks).flatMap Emitted.labels ↔
    ∃ b ∈ blocks, a = b.startAddr ∨ (a ∈ blockWords b ∧ inner g b a) := by
  rw [bodyText, flatMap_assoc, mem_flatMap]
  refine exists_congr fun b => and_congr_right fun hb => ?_
  exact mem_labels_block g h.readable (h.block (he.sub.subset hb))

theorem Emits.labels_nodup : ((bodyText g blocks).flatMap Emitted.labels).Nodup := by
  rw [bodyText, flatMap_assoc, nodup_flatMap]
  refine ⟨fun b hb => h.labels_block_nodup (he.sub.subset hb), ?_⟩
  have hord : g.cfg.blocks.Pairwise fun b b' => b.endAddr < b'.startAddr := by
    rw [h.cfg]
    exact h.readable.blocks_pairwise
  refine (hord.sublist he.sub).imp_of_mem fun hb hb' hlt a ha ha' => ?_
  have hle := (h.label_bounds (he.sub.subset hb) ha).2.2
  have hge := (h.label_bounds (he.sub.subset hb') ha').2.1
  rw [BitVec.lt_def] at hlt
  omega

theorem Emits.label_of_edge_iff (hb : b ∈ blocks) (ht : t ∈ tableEdges g.exe g.cfg b) :
    t ∈ (bodyText g blocks).flatMap Emitted.labels ↔ EntryOk g.cfg t := by
  rw [he.mem_labels h]
  constructor
  · rintro ⟨b₁, hb₁, hlabel⟩
    have hmem₁ := he.sub.subset hb₁
    obtain ⟨hA, hlo, hhi⟩ := h.label_bounds hmem₁
      ((mem_labels_block g h.readable (h.block hmem₁)).mpr hlabel)
    refine ⟨hA, fun b' hb' hslot heq => ?_⟩
    -- both blocks hold the address, so that they are one
    have hbo' := h.block hb'
    have hcov : b'.Covers t := (hbo'.covers_iff h.readable hA).mpr ⟨heq ▸ hbo'.start_le, heq ▸ le_rfl⟩
    have hcov₁ : b₁.Covers t := ((h.block hmem₁).covers_iff h.readable hA).mpr ⟨hlo, hhi⟩
    obtain rfl := h.block_unique hmem₁ hb' hcov₁ hcov
    rcases hlabel with hstart | ⟨-, hinner⟩
    · exact absurd (hstart.symm.trans heq) (hbo'.start_lt_of_slot hslot).ne
    · exact hinner.2 ⟨hslot, heq⟩
  · rintro ⟨hA, hslot⟩
    obtain ⟨-, -, -, -, hin⟩ := h.mem_tableEdges.mp ht
    obtain ⟨b', ⟨hb', hcov⟩, -⟩ := h.readable.wellFormed.covers t hin
    rw [← h.cfg] at hb'
    have hlive := he.table b hb t ht hA b' hb' hcov
    have hbo' := h.block hb'
    refine ⟨b', hlive, ?_⟩
    by_cases hstart : t = b'.startAddr
    · exact .inl hstart
    · refine .inr ⟨(mem_blockWords g hbo').mpr
        ⟨hA, (hbo'.covers_iff h.readable hA).mp hcov⟩, ⟨hstart, ?_⟩, fun hs => hslot b' hb' hs.1 hs.2⟩
      refine (h.labelled_of_edge (he.sub.subset hb) ht).resolve_left fun hblock => ?_
      -- a block that starts here is this one
      obtain ⟨b₂, hb₂, h₂⟩ := any_eq_true.mp hblock
      have h₂ := decide_eq_true_eq.mp h₂
      have hcov₂ : b₂.Covers t := ((h.block hb₂).covers_iff h.readable hA).mpr
        ⟨h₂ ▸ le_rfl, h₂ ▸ (h.block hb₂).start_le⟩
      rw [h.block_unique hb₂ hb' hcov₂ hcov] at h₂
      exact hstart h₂.symm

theorem Emits.closed_iff {cases : List Word} (hcases : ∀ a ∈ cases, ∃ b ∈ blocks, b.startAddr = a) :
    (Body.mk cases (bodyText g blocks)).LabelsClosed ↔ TablesOk g.exe g.cfg blocks := by
  have hcount : ∀ a, ((bodyText g blocks).flatMap labels).count a = 1 ↔
      a ∈ (bodyText g blocks).flatMap labels := fun a =>
    ⟨fun hc => one_le_count_iff.mp hc.ge, count_eq_one_of_mem (he.labels_nodup h)⟩
  have hgotos : ∀ a, a ∈ (bodyText g blocks).flatMap gotos ↔
      ∃ b ∈ blocks, a ∈ transferGotos g b := by
    intro a
    rw [bodyText, flatMap_assoc, mem_flatMap]
    refine exists_congr fun b => and_congr_right fun hb => ?_
    exact mem_gotos_block g h.readable (h.block (he.sub.subset hb))
  simp only [Body.LabelsClosed, hcount, mem_append]
  constructor
  · intro hall b hb t ht
    have hgoto := h.edge_mem_gotos (he.sub.subset hb) ht
    exact (he.label_of_edge_iff h hb ht).mp (hall t (.inr ((hgotos t).mpr ⟨b, hb, hgoto⟩)))
  · intro hok a ha
    have hstart : (∃ b ∈ blocks, b.startAddr = a) → a ∈ (bodyText g blocks).flatMap labels := by
      rintro ⟨b, hb, rfl⟩
      exact (he.mem_labels h).mpr ⟨b, hb, .inl rfl⟩
    rcases ha with ha | ha
    · exact hstart (hcases a ha)
    · obtain ⟨b, hb, hgoto⟩ := (hgotos a).mp ha
      rcases h.gotos_cases (h.block (he.sub.subset hb)) hgoto with hsucc | hedge
      · exact hstart (he.succ b hb a hsucc)
      · exact (he.label_of_edge_iff h hb hedge).mpr (hok b hb a hedge)

end

/-! ## 6. Functions and alias groups -/

theorem find?_of_unique {α : Type} {l : List α} {p : α → Bool} {b : α} (hb : b ∈ l) (hp : p b = true)
    (hunique : ∀ x ∈ l, p x = true → x = b) : l.find? p = some b := by
  cases hf : l.find? p with
  | none => exact absurd hp (find?_eq_none.mp hf b hb)
  | some x => rw [hunique x (mem_of_find?_eq_some hf) (find?_some hf)]

variable {b : BasicBlock}

section
variable {g : Context} {f : Function} (h : g.Of f)
include h

theorem Context.Of.continuations_start {blocks : List BasicBlock} (he : Emits g blocks)
    (skip : List Word) : ∀ a ∈ continuations blocks skip, ∃ b ∈ blocks, b.startAddr = a := by
  intro a ha
  rcases mem_append.mp ha with ha | ha
  · obtain ⟨b, hb, hsome⟩ := mem_filterMap.mp ha
    split_ifs at hsome with hcall
    cases hsome
    refine he.succ b hb _ ?_
    obtain ⟨htype, hne⟩ := hcall
    rw [(h.block (he.sub.subset hb)).succ] at hne ⊢
    rcases htype with ht | ht <;>
    · simp only [successors, ht] at hne ⊢
      split_ifs at hne ⊢
      · exact mem_singleton_self _
      · exact absurd rfl hne
  · obtain ⟨b, hb, rfl⟩ := mem_map.mp (mem_of_mem_filter ha)
    exact ⟨b, hb, rfl⟩

theorem Context.Of.emits_blocks : Emits g g.cfg.blocks where
  sub := Sublist.refl _
  succ b hb a ha := by
    rw [h.cfg] at hb ⊢
    exact h.readable.wellFormed.successors b hb a ha
  table _ _ _ _ _ _ hb' _ := hb'

theorem Context.Of.containingBlock_eq (hb : b ∈ g.cfg.blocks)
    (ha : Aligned a) (hcov : b.Covers a) : containingBlock g.cfg a = some b.startAddr := by
  have hiff : ∀ x ∈ g.cfg.blocks, x.startAddr ≤ a ∧ a ≤ x.endAddr ↔ x.Covers a := by
    intro x hx
    rw [(h.block hx).covers_iff h.readable ha, BitVec.le_def, BitVec.le_def]
  rw [containingBlock, find?_of_unique hb (decide_eq_true ((hiff b hb).mpr hcov))]
  · rfl
  · intro x hx hp
    exact h.block_unique hx hb ((hiff x hx).mp (decide_eq_true_eq.mp hp)) hcov

theorem Context.Of.covers_start (hb : b ∈ g.cfg.blocks) : b.Covers b.startAddr :=
  ((h.block hb).covers_iff h.readable (h.block hb).start_aligned).mpr ⟨le_rfl, (h.block hb).start_le⟩

theorem Context.Of.blockEdges_eq (hb : b ∈ g.cfg.blocks) :
    blockEdges g.exe g.cfg b.startAddr = b.successors.filter g.cfg.hasBlock ++
      (tableEdges g.exe g.cfg b).filterMap (containingBlock g.cfg) := by
  rw [blockEdges, find?_of_unique hb (decide_eq_true rfl)]
  intro x hx hp
  have hstart := decide_eq_true_eq.mp hp
  exact h.block_unique hx hb (hstart ▸ h.covers_start hx) (h.covers_start hb)

theorem Context.Of.emits_liveBlocks (entries : List Word) :
    Emits g (liveBlocks g.exe g.cfg entries) := by
  -- along an edge to a block one stays among the live ones
  have hedge : ∀ b ∈ liveBlocks g.exe g.cfg entries, ∀ b' ∈ g.cfg.blocks,
      b'.startAddr ∈ blockEdges g.exe g.cfg b.startAddr → b' ∈ liveBlocks g.exe g.cfg entries := by
    intro b hb b' hb' hs
    refine mem_filter.mpr ⟨hb', decide_eq_true ?_⟩
    exact closed (fun _ hlive => absurd hlive not_mem_nil)
      (decide_eq_true_eq.mp (mem_filter.mp hb).2) hs (mem_map_of_mem hb')
  refine ⟨filter_sublist, fun b hb a ha => ?_, fun b hb t ht hA b' hb' hcov => ?_⟩
  · have hmem := mem_of_mem_filter hb
    obtain ⟨b', hb', rfl⟩ := h.emits_blocks.succ b hmem a ha
    refine ⟨b', hedge b hb b' hb' ?_, rfl⟩
    rw [h.blockEdges_eq hmem]
    exact mem_append_left _ (mem_filter.mpr
      ⟨ha, any_eq_true.mpr ⟨b', hb', decide_eq_true rfl⟩⟩)
  · refine hedge b hb b' hb' ?_
    rw [h.blockEdges_eq (mem_of_mem_filter hb)]
    exact mem_append_right _ (mem_filterMap.mpr ⟨t, ht, h.containingBlock_eq hb' hA hcov⟩)

theorem Context.Of.entry_live {entries : List Word} (ha : a ∈ entries)
    (hleader : Leader g.exe f a) : ∃ b ∈ liveBlocks g.exe g.cfg entries, b.startAddr = a := by
  obtain ⟨b, hb, rfl⟩ := (h.readable.wellFormed.starts a).mpr hleader
  rw [← h.cfg] at hb
  refine ⟨b, mem_filter.mpr ⟨hb, decide_eq_true ?_⟩, rfl⟩
  refine mem_of_work (mem_reverse.mpr (mem_filterMap.mpr ⟨_, ha, ?_⟩))
    (mem_map_of_mem hb)
  exact h.containingBlock_eq hb (h.block hb).start_aligned (h.covers_start hb)

end

theorem readable_alias {exe : Exe} {host f : Function} (h : Readable exe host)
    (hhost : host.aliasWalkLo = 0#32) {entries : List Word}
    (hin : ∀ e ∈ entries, Aligned e ∧ host.startAddr < e ∧ e < host.endAddr)
    (hf : f ∈ aliasGroup host.startAddr host.endAddr entries) :
    Readable exe f ∧ f.aliasWalkLo ≠ 0#32 ∧ f.aliasGroupEntries = entries ∧
      ∀ e ∈ entries, f.Contains e := by
  obtain ⟨a, ha, rfl⟩ := mem_map.mp hf
  have hlo : host.walkLo = host.startAddr := if_neg (not_not_intro hhost)
  have hne : host.startAddr ≠ 0#32 := h.ne_zero ⟨hlo.le, lt_trans (hin a ha).2.1 (hin a ha).2.2⟩
  have hwalk : ∀ e es, Function.walkLo
      { startAddr := e, endAddr := host.endAddr, aliasWalkLo := host.startAddr,
        aliasGroupEntries := es } = host.walkLo := fun e es => (if_pos hne).trans hlo.symm
  have hcontains : ∀ e ∈ entries, host.Contains e := fun e he =>
    ⟨hlo ▸ (hin e he).2.1.le, (hin e he).2.2⟩
  refine ⟨⟨⟨?_, h.end_aligned, ?_, fun _ => ⟨?_, (hin a ha).1⟩, fun _ e he _ => (hin e he).1⟩, ?_⟩,
    hne, rfl, ?_⟩
  · rw [hwalk]
    exact h.lo_aligned
  · rw [hwalk]
    exact h.lo_lt_end
  · rw [Function.Contains, hwalk]
    exact hcontains a ha
  · intro x hx hc
    rw [Function.Contains, hwalk] at hc
    exact h.words x hx hc
  · intro e he
    rw [Function.Contains, hwalk]
    exact hcontains e he

/-- For every function and every alias group of it: each `goto` of the body has its label, once, if and
only if the entries of the tables the body reads, as far as they lie in the range, are instructions and
no delay slots of their block. Other words have no label because the loop goes from word to word, and
slots because they are written as a part of the exit. -/
theorem labels_closed_iff (exe : Exe) (config : Config) (known : List Word) (f : Function)
    (h : Readable exe f) :
    ((generateFunction exe config known f (analyzeFunction exe f)).LabelsClosed ↔
      TablesOk exe (analyzeFunction exe f) (analyzeFunction exe f).blocks) ∧
    (f.aliasWalkLo = 0#32 → ∀ entries : List Word,
      (∀ e ∈ entries, Aligned e ∧ f.startAddr < e ∧ e < f.endAddr) →
      ∀ a ∈ aliasGroup f.startAddr f.endAddr entries, let cfg := analyzeFunction exe a
        ((generateAliasGroup exe config known (aliasGroup f.startAddr f.endAddr entries)
            cfg).LabelsClosed ↔
          TablesOk exe cfg (liveBlocks exe cfg entries))) := by
  constructor
  · let g : Context := ⟨exe, config, analyzeFunction exe f, scanJrTables exe (analyzeFunction exe f), known⟩
    have hg : g.Of f := ⟨h, rfl, rfl⟩
    refine hg.emits_blocks.closed_iff hg fun a ha => ?_
    exact hg.continuations_start hg.emits_blocks [f.startAddr] a (mem_eraseDups.mp ha)
  · intro hhost entries hin a ha cfg
    obtain ⟨hread, hne, hentries, hcontains⟩ := readable_alias h hhost hin ha
    let g : Context := ⟨exe, config, cfg, scanJrTables exe cfg, known⟩
    have hg : g.Of a := ⟨hread, rfl, rfl⟩
    have hstarts : (aliasGroup f.startAddr f.endAddr entries).map (·.startAddr) = entries := by
      rw [aliasGroup, map_map]
      exact map_id entries
    unfold generateAliasGroup
    rw [hstarts]
    refine (hg.emits_liveBlocks entries).closed_iff hg fun x hx => ?_
    rcases mem_append.mp hx with hx | hx
    · exact hg.continuations_start (hg.emits_liveBlocks entries) entries x (mem_eraseDups.mp hx)
    · exact hg.entry_live hx (.entry hne (.inr (hentries ▸ hx)) (hcontains x hx))

/-- `sltiu; lui; addu; lw; jr` with its slot, and a table of one entry -/
def switchExe (entry : Word) : Exe :=
  textExe [0x2C820001#32, 0x3C028001#32, 0x00431021#32, 0x8C420018#32, 0x00400008#32, 0#32, entry] (by simp)

/-- The entry is the `addu`, which is also the alias. -/
theorem labels_closed_switch :
    let exe := switchExe 0x80010008#32
    let group := aliasGroup 0x80010000#32 0x80010018#32 [0x80010008#32]
    (generateFunction exe {} [] (textFunction 6) (analyzeFunction exe (textFunction 6))).text.flatMap
        Emitted.gotos = [0x80010008#32] ∧
      (generateFunction exe {} [] (textFunction 6) (analyzeFunction exe (textFunction 6))).LabelsClosed ∧
      ∀ a ∈ group, (generateAliasGroup exe {} [] group (analyzeFunction exe a)).LabelsClosed := by
  intro exe group
  have hedges : ∀ f ∈ textFunction 6 :: group, ∀ b ∈ (analyzeFunction exe f).blocks,
      (tableEdges exe (analyzeFunction exe f) b).all (· = 0x80010008#32) ∧
        (slotInBlock b = true → 0x80010008#32 ≠ b.endAddr) := by decide +kernel
  have hok : ∀ f ∈ textFunction 6 :: group, ∀ blocks ⊆ (analyzeFunction exe f).blocks,
      TablesOk exe (analyzeFunction exe f) blocks := by
    intro f hf blocks hsub b hb t ht
    obtain rfl : t = 0x80010008#32 := by
      simpa using List.all_eq_true.mp (hedges f hf b (hsub hb)).1 t ht
    exact ⟨by decide, fun b' hb' => (hedges f hf b' hb').2⟩
  have hclosed := labels_closed_iff exe {} [] (textFunction 6) (readable_text _ (by simp))
  refine ⟨by decide +kernel, hclosed.1.mpr (hok _ mem_cons_self _ (Subset.refl _)), fun a ha => ?_⟩
  refine (hclosed.2 rfl [0x80010008#32] (fun e he => ?_) a ha).mpr
    (hok a (mem_cons_of_mem _ ha) _ (filter_subset_self _))
  rw [mem_singleton.mp he]
  decide

/-- The entry is the slot: the `switch` goes to `block_80010014`, which is nowhere. -/
theorem slot_entry_has_no_label :
    let exe := switchExe 0x80010014#32
    let body := generateFunction exe {} [] (textFunction 6) (analyzeFunction exe (textFunction 6))
    body.text.flatMap Emitted.gotos = [0x80010014#32] ∧
      body.text.flatMap Emitted.labels = [0x80010000#32] ∧ ¬ body.LabelsClosed := by
  intro exe body
  have hgotos : body.text.flatMap gotos = [0x80010014#32] := by decide +kernel
  have hlabels : body.text.flatMap labels = [0x80010000#32] := by decide +kernel
  refine ⟨hgotos, hlabels, fun hclosed => ?_⟩
  have hone := hclosed 0x80010014#32 (mem_append_right _ (by simp [hgotos]))
  exact absurd hone (by decide)

end PsxRecomp.CodeGen
