import PsxRecomp.Lib.Bytes
import PsxRecomp.Lib.Worklist
import PsxRecomp.Analysis.ControlFlow
import PsxRecomp.Bios.AddressMap
import PsxRecomp.Emit.Strict

/-!
# `Bios/Discovery.lean` — `FunctionDiscovery::walk_function`

`recompiler/src/function_discovery.cpp`: which words of the BIOS ROM make up a function. From the entry
the walk follows branches, jumps, returns of calls and the entries of jump tables, as long as they are
in bounds. The delay slot of a transfer is put into the set without being walked. The result is the set
of addresses and the set of block leaders.
-/

set_option autoImplicit false

namespace PsxRecomp.Bios

open Words List Option Worklist

/-! ## 1. Control flow -/

inductive CFInfo where
  | normal
  | condBranch (target : Word)
  | jump (target : Word)
  | call (target : Word)
  | jrRa
  | jrIndirect (reg : Reg)
  | jalr (reg : Reg)
  | syscall
  | brk
  | rfe
  deriving DecidableEq, Repr

def classifyControlFlow (raw addr : Word) : CFInfo :=
  let op := opField raw
  let jumpTarget := remapRelocatedJTarget (romTarget addr (target26 raw)) addr
  if 0x04#6 ≤ op ∧ op ≤ 0x07#6 then .condBranch (branchTarget addr raw)
  else if op = 0x01#6 then .condBranch (branchTarget addr raw)
  else if op = 0x02#6 then .jump jumpTarget
  else if op = 0x03#6 then .call jumpTarget
  else if op = 0x00#6 ∧ functField raw = 0x08#6 then
    if rsField raw = 31#5 then .jrRa else .jrIndirect (rsField raw)
  else if op = 0x00#6 ∧ functField raw = 0x09#6 then .jalr (rsField raw)
  else if op = 0x00#6 ∧ functField raw = 0x0C#6 then .syscall
  else if op = 0x00#6 ∧ functField raw = 0x0D#6 then .brk
  else if raw = 0x42000010#32 then .rfe
  else .normal

def CFInfo.transfers : CFInfo → Bool
  | .condBranch _ | .jump _ | .call _ | .jrRa | .jrIndirect _ | .jalr _ => true
  | .normal | .syscall | .brk | .rfe => false

/-- Where the machine goes on from an instruction at `a`. The target of a `jr` is not known. -/
def CFInfo.nexts (a : Word) : CFInfo → List Word
  | .normal | .syscall | .brk | .rfe => [a + 4#32]
  | .condBranch t => [a + 8#32, t]
  | .jump t => [t]
  | .call _ | .jalr _ => [a + 8#32]
  | .jrRa | .jrIndirect _ => []

def ramAliasToRom (addr : Word) : Word :=
  let phys := physical addr
  if 0x500#32 ≤ phys ∧ phys < 0x8500#32 then 0xBFC10000#32 + (phys - 0x500#32)
  else if 0x30000#32 ≤ phys ∧ phys ≤ 0x5AFFF#32 then 0xBFC18000#32 + (phys - 0x30000#32)
  else addr

/-! ## 2. The walk -/

/-- The arguments of `walk_function` -/
structure Walk where
  rom : List (BitVec 8)
  base : Word
  romEnd : Word
  entry : Word
  hardCap : Word

namespace Walk
variable (w : Walk)

def inBounds (a : Word) : Bool :=
  decide (w.base ≤ a ∧ a ≤ w.romEnd ∧ w.entry ≤ a ∧ a < w.hardCap)

/-- `fetch`; it throws behind the end of the ROM. -/
def fetch (a : Word) : Option Word :=
  let offset := (a - w.base).toNat
  if w.rom.length ≤ offset + 3 then none else some (leWord (fun i => w.rom.getD i 0#8) offset)

def supported (a raw : Word) : Bool :=
  match Strict.translate a raw with
  | .ok _ => true
  | .error _ => false

/-- The backward scan for the table of a `jr` -/
def scanTable (reg : Reg) : Nat → Word → TableScan → Option TableScan
  | 0, _, t => some t
  | fuel + 1, sa, t =>
    if sa < w.entry ∨ w.inBounds sa = false then some t
    else
      (w.fetch sa).bind fun si =>
        match t.step reg si with
        | none => some t
        | some t => scanTable reg fuel (sa - 4#32) t

/-- The table a `jr` at `addr` reads, if there is one: its place in the ROM and its length -/
def jumpTable (addr : Word) (reg : Reg) : Option (Option (Word × Nat)) :=
  (w.scanTable reg 40 (addr - 4#32) {}).map fun t =>
    match t.lui with
    | some lui =>
      if 0#32 < t.count ∧ t.count < 512#32 then
        some (ramAliasToRom (lui + t.addiu.1.getD 0#32 + t.lwOffset), t.count.toNat)
      else none
    | none => none

def tableTargets (table : Word × Nat) : Option (List Word) :=
  ((List.range table.2).map fun i => table.1 + BitVec.ofNat 32 (4 * i)).filter w.inBounds
    |>.mapM w.fetch |>.map fun entries => (entries.map ramAliasToRom).filter w.inBounds

/-- Seeing the delay slot of a transfer at `a` -/
def markSlot (a : Word) : Option (List Word) :=
  if w.inBounds (a + 4#32) then (w.fetch (a + 4#32)).map fun _ => [a + 4#32] else some []

/-- What a transfer at `a` puts into the queue; all of it becomes block leaders. -/
def follow (a : Word) : CFInfo → Option (List Word)
  | .condBranch t => some (((a + 8#32) :: if t ≠ 0#32 then [t] else []).filter w.inBounds)
  | .jump t => some ((if t ≠ 0#32 then [t] else []).filter w.inBounds)
  | .call _ | .jalr _ => some ([a + 8#32].filter w.inBounds)
  | .jrIndirect reg =>
    (w.jumpTable a reg).bind fun
      | some table => (w.tableTargets table).map fun ts => ts ++ [a + 8#32].filter w.inBounds
      | none => some []
  | _ => some []

/-- Walking the instruction at `a` -/
def expand (a : Word) : Option (Worklist.Expansion Word) :=
  (w.fetch a).bind fun raw =>
    if supported a raw then
      let cf := classifyControlFlow raw a
      if cf.transfers then
        (w.markSlot a).bind fun mark => (w.follow a cf).map fun push => ⟨mark, push⟩
      else if cf = .rfe then some ⟨[], []⟩
      else some ⟨[], [a + 4#32].filter w.inBounds⟩
    else some ⟨[], []⟩

/-- `walk_function`; `none` is the exception of `fetch`. -/
def walkFunction : Option (Worklist.State Word) :=
  Worklist.walk w.inBounds w.expand (.init w.entry)

def leadersOf (a : Word) : List Word :=
  match w.fetch a with
  | some raw =>
    let cf := classifyControlFlow raw a
    if supported a raw && cf.transfers then (w.follow a cf).getD [] else []
  | none => []

/-- `block_leader_set` -/
def leaders (s : Worklist.State Word) : List Word := w.entry :: s.walked.flatMap w.leadersOf

/-! ## 3. The flow of the machine -/

/-- Where the machine goes on after the instruction at `a`, the delay slot of a transfer done -/
def Next (a b : Word) : Prop := ∃ raw, w.fetch a = some raw ∧ b ∈ (classifyControlFlow raw a).nexts a

/-- The instructions in bounds that the machine can come to from the entry -/
inductive Reach : Word → Prop
  | entry : w.inBounds w.entry = true → Reach w.entry
  | next {a b : Word} : Reach a → w.Next a b → w.inBounds b = true → Reach b

/-- The word at `a` is a transfer. -/
def Transfer (a : Word) : Prop :=
  ∃ raw, w.fetch a = some raw ∧ (classifyControlFlow raw a).transfers = true

/-- The target of a branch or jump at `a` -/
def Target (a t : Word) : Prop :=
  ∃ raw, w.fetch a = some raw ∧
    (classifyControlFlow raw a = .condBranch t ∨ classifyControlFlow raw a = .jump t)

/-- All addresses in the flow of the function are in the set, also the delay slots, and the targets of
its branches and jumps that are in the set are leaders. -/
def Closed (s : Worklist.State Word) : Prop :=
  (∀ a, w.Reach a → a ∈ s.visited) ∧
  (∀ a, w.Reach a → w.Transfer a → w.inBounds (a + 4#32) = true → a + 4#32 ∈ s.visited) ∧
  ∀ a ∈ s.visited, ∀ t, w.Target a t → w.inBounds t = true → t ∈ s.visited → t ∈ w.leaders s

/-- The walk goes on behind the delay slot of the transfer at `a`. -/
def Continues (a : Word) : Prop :=
  ∃ raw, w.fetch a = some raw ∧
    match classifyControlFlow raw a with
    | .condBranch _ | .call _ | .jalr _ => True
    | .jrIndirect reg => ∃ table, w.jumpTable a reg = some (some table)
    | _ => False

/-- The delay slot of the transfer at `a` need not be walked: it is no branch or jump, and if it is also
an instruction of the flow, it is no transfer at all and the walk goes on behind it. -/
def SlotOk (a : Word) : Prop :=
  (∀ t, ¬ w.Target (a + 4#32) t) ∧
    (w.Reach (a + 4#32) → ¬ w.Transfer (a + 4#32) ∧ w.Continues a)

/-- What is asked of the step that walks `a` in the state `s` -/
structure VisitOk (s : Worklist.State Word) (a : Word) : Prop where
  supported : ∀ raw, w.fetch a = some raw → supported a raw = true
  rfe : ∀ raw, w.fetch a = some raw → classifyControlFlow raw a = .rfe → w.inBounds (a + 4#32) = false
  slot : w.Transfer a → w.inBounds (a + 4#32) = true → a + 4#32 ∉ s.visited → w.SlotOk a

def StepOk (s : Worklist.State Word) : Prop :=
  ∀ a work, s.work = a :: work → a ∉ s.visited → w.inBounds a = true → w.VisitOk s a

abbrev Reached : Worklist.State Word → Prop :=
  Runs.Reached (fun (_ : Unit) => Worklist.step w.inBounds w.expand) (fun _ _ => True)
    (· = .init w.entry)

/-! ## 4. What walking an instruction does -/

variable {a b : Word}

theorem nexts_plain {cf : CFInfo} (ht : cf.transfers = false) (hb : b ∈ cf.nexts a) :
    b = a + 4#32 := by
  cases cf with
  | normal | syscall | brk | rfe => exact mem_singleton.mp hb
  | condBranch _ | jump _ | call _ | jrRa | jrIndirect _ | jalr _ => cases ht

theorem nexts_mem_follow {w : Walk} {cf : CFInfo} (ht : cf.transfers = true)
    {push : List Word} (h : w.follow a cf = some push) (hb : b ∈ cf.nexts a)
    (hin : w.inBounds b = true) (hb0 : b ≠ 0#32) : b ∈ push := by
  cases cf with
  | condBranch t =>
    rw [← some.inj h]
    refine mem_filter.mpr ⟨?_, hin⟩
    rcases mem_cons.mp hb with rfl | hb
    · exact mem_cons_self
    · obtain rfl := mem_singleton.mp hb
      rw [if_pos hb0]
      exact mem_cons_of_mem _ (mem_singleton_self _)
  | jump t =>
    obtain rfl := mem_singleton.mp hb
    rw [← some.inj h, if_pos hb0]
    exact mem_filter.mpr ⟨mem_singleton_self _, hin⟩
  | call _ | jalr _ =>
    rw [← some.inj h]
    exact mem_filter.mpr ⟨hb, hin⟩
  | jrRa | jrIndirect _ => cases hb
  | normal | syscall | brk | rfe => cases ht

section
variable {w} {a : Word} {e : Worklist.Expansion Word} (he : w.expand a = some e)
include he

theorem expand_fetch : ∃ raw, w.fetch a = some raw := by
  unfold expand at he
  cases hf : w.fetch a with
  | none => rw [hf] at he; cases he
  | some raw => exact ⟨raw, rfl⟩

variable {raw : Word} (hraw : w.fetch a = some raw)
include hraw

theorem mem_mark {m : Word} (hm : m ∈ e.mark) :
    m = a + 4#32 ∧ w.Transfer a ∧ w.inBounds (a + 4#32) = true := by
  simp only [expand, hraw, bind_some] at he
  split_ifs at he with hs ht hrfe
  · obtain ⟨mark, hmark, he⟩ := bind_eq_some_iff.mp he
    obtain ⟨push, -, rfl⟩ := map_eq_some_iff.mp he
    unfold markSlot at hmark
    split_ifs at hmark with hin
    · obtain ⟨_, -, rfl⟩ := map_eq_some_iff.mp hmark
      exact ⟨mem_singleton.mp hm, ⟨raw, hraw, ht⟩, hin⟩
    · cases hmark
      cases hm
  all_goals
    cases he
    cases hm

variable (hs : supported a raw = true)
include hs

theorem expand_transfer (ht : (classifyControlFlow raw a).transfers = true) :
    (w.inBounds (a + 4#32) = true → a + 4#32 ∈ e.mark) ∧
      w.follow a (classifyControlFlow raw a) = some e.push := by
  simp only [expand, hraw, bind_some, hs, if_true, ht] at he
  obtain ⟨mark, hmark, he⟩ := bind_eq_some_iff.mp he
  obtain ⟨push, hpush, rfl⟩ := map_eq_some_iff.mp he
  refine ⟨fun hin => ?_, hpush⟩
  rw [markSlot, if_pos hin] at hmark
  obtain ⟨_, -, rfl⟩ := map_eq_some_iff.mp hmark
  exact mem_singleton_self _

theorem expand_plain (ht : (classifyControlFlow raw a).transfers = false)
    (hrfe : classifyControlFlow raw a ≠ .rfe) : e.push = [a + 4#32].filter w.inBounds := by
  simp only [expand, hraw, bind_some, hs, if_true, ht, Bool.false_eq_true, if_false,
    if_neg hrfe] at he
  cases he
  rfl

theorem next_mem_push (hnext : w.Next a b) (hin : w.inBounds b = true) (hb : b ≠ 0#32)
    (hrfe : classifyControlFlow raw a = .rfe → w.inBounds (a + 4#32) = false) : b ∈ e.push := by
  obtain ⟨raw', hraw', hmem⟩ := hnext
  obtain rfl : raw = raw' := some.inj (hraw.symm.trans hraw')
  cases ht : (classifyControlFlow raw a).transfers with
  | true => exact nexts_mem_follow ht (expand_transfer he hraw hs ht).2 hmem hin hb
  | false =>
    obtain rfl : b = a + 4#32 := nexts_plain ht hmem
    have hne : classifyControlFlow raw a ≠ .rfe := fun h => by
      rw [hrfe h] at hin
      cases hin
    rw [expand_plain he hraw hs ht hne]
    exact mem_filter.mpr ⟨mem_singleton_self _, hin⟩

theorem continues_mem_push (hcont : w.Continues a) (hin : w.inBounds (a + 8#32) = true) :
    a + 8#32 ∈ e.push := by
  obtain ⟨raw', hraw', hcase⟩ := hcont
  obtain rfl : raw = raw' := some.inj (hraw.symm.trans hraw')
  have htransfer := expand_transfer he hraw hs
  cases hcf : classifyControlFlow raw a with
  | condBranch t =>
    rw [hcf] at htransfer
    rw [← some.inj (htransfer rfl).2]
    exact mem_filter.mpr ⟨mem_cons_self, hin⟩
  | call _ | jalr _ =>
    rw [hcf] at htransfer
    rw [← some.inj (htransfer rfl).2]
    exact mem_filter.mpr ⟨mem_singleton_self _, hin⟩
  | jrIndirect r =>
    rw [hcf] at htransfer hcase
    obtain ⟨table, htable⟩ := hcase
    have hpush := (htransfer rfl).2
    simp only [follow, htable, bind_some] at hpush
    obtain ⟨ts, -, hts⟩ := map_eq_some_iff.mp hpush
    rw [← hts]
    exact mem_append_right _ (mem_filter.mpr ⟨mem_singleton_self _, hin⟩)
  | normal | syscall | brk | rfe | jump _ | jrRa =>
    rw [hcf] at hcase
    exact hcase.elim

theorem leadersOf_eq (ht : (classifyControlFlow raw a).transfers = true) :
    w.leadersOf a = e.push := by
  obtain ⟨-, hpush⟩ := expand_transfer he hraw hs ht
  simp [leadersOf, hraw, hs, ht, Bool.and_self, hpush, getD_some]

end

/-! ## 5. The walk is closed -/

structure Sound (s : Worklist.State Word) : Prop
    extends Worklist.Followed w.inBounds w.expand w.entry s where
  supported : ∀ a ∈ s.walked, ∀ raw, w.fetch a = some raw → Walk.supported a raw = true
  rfe : ∀ a ∈ s.walked, ∀ raw, w.fetch a = some raw → classifyControlFlow raw a = .rfe →
    w.inBounds (a + 4#32) = false
  /-- what was seen and not walked is a delay slot -/
  slots : ∀ x ∈ s.visited, x ∉ s.walked → ∃ t ∈ s.walked, x = t + 4#32 ∧ w.SlotOk t

section
variable {w} {s : Worklist.State Word}

theorem sound_init : w.Sound (.init w.entry) where
  toFollowed := followed_init w.entry
  supported _ ha := absurd ha not_mem_nil
  rfe _ ha := absurd ha not_mem_nil
  slots _ hx := absurd hx not_mem_nil

theorem Sound.step {s' : Worklist.State Word} (h : w.Sound s) (hok : w.StepOk s)
    (hs : Worklist.step w.inBounds w.expand s = some s') : w.Sound s' := by
  have hfollowed := h.toFollowed.step hs
  have hslots : Worklist.Marked (fun t x => x = t + 4#32 ∧ w.SlotOk t) s' := by
    refine Worklist.Marked.step h.slots hs fun a work e hw hnew hin he m hm hv => ?_
    obtain ⟨raw, hraw⟩ := expand_fetch he
    obtain ⟨rfl, htransfer, hslot⟩ := mem_mark he hraw hm
    exact ⟨rfl, (hok a work hw hnew hin).slot htransfer hslot hv⟩
  obtain ⟨-, rfl⟩ | ⟨a, work, hw, -, rfl⟩ | ⟨a, work, e, hw, hnew, hin, he, rfl⟩ :=
    step_cases hs
  · exact h
  · exact ⟨hfollowed, h.supported, h.rfe, h.slots⟩
  · have hvisit := hok a work hw hnew hin
    refine ⟨hfollowed, fun x hx => ?_, fun x hx => ?_, hslots⟩
    · rcases mem_cons.mp hx with rfl | hx
      · exact hvisit.supported
      · exact h.supported x hx
    · rcases mem_cons.mp hx with rfl | hx
      · exact hvisit.rfe
      · exact h.rfe x hx

theorem eq_entry_of_zero (h : w.inBounds 0#32 = true) : w.entry = 0#32 := by
  have hle := (of_decide_eq_true h).2.2.1
  exact le_antisymm hle (BitVec.le_def.mpr (Nat.zero_le _))

variable (h : w.Sound s) (hend : s.work = [])
include h hend

theorem Sound.next_visited (ha : a ∈ s.walked) (hnext : w.Next a b)
    (hin : w.inBounds b = true) : b ∈ s.visited := by
  have hseen : ∀ x, x ∈ s.visited ∨ x ∈ s.work → x ∈ s.visited := fun x hx =>
    hx.resolve_right (by simp [hend])
  by_cases hb : b = 0#32
  · subst hb
    have hentry := eq_entry_of_zero hin
    exact hseen _ (hentry ▸ h.entry (hentry.symm ▸ hin))
  · obtain ⟨-, -, e, he, -, hpush⟩ := h.walked a ha
    obtain ⟨raw, hraw⟩ := expand_fetch he
    have hmem := next_mem_push he hraw (h.supported a ha raw hraw) hnext hin hb (h.rfe a ha raw hraw)
    exact hseen b (hpush b hmem hin)

theorem Sound.reach_visited (ha : w.Reach a) : a ∈ s.visited := by
  induction ha with
  | entry hin => exact (h.toFollowed.entry hin).resolve_right (by simp [hend])
  | @next a b hreach hnext hin ih =>
    by_cases hwalked : a ∈ s.walked
    · exact h.next_visited hend hwalked hnext hin
    · -- a delay slot that is also an instruction: its transfer goes on behind it
      obtain ⟨t, ht, rfl, -, hslot⟩ := h.slots a ih hwalked
      obtain ⟨hplain, hcont⟩ := hslot hreach
      obtain ⟨raw, hraw, hmem⟩ := hnext
      have hfalse : (classifyControlFlow raw (t + 4#32)).transfers = false := by
        by_contra htrue
        exact hplain ⟨raw, hraw, by simpa using htrue⟩
      obtain rfl : b = t + 8#32 := by
        rw [nexts_plain hfalse hmem, BitVec.add_assoc]
        rfl
      obtain ⟨-, -, e, he, -, hpush⟩ := h.walked t ht
      obtain ⟨rawt, hrawt⟩ := expand_fetch he
      have hpushed := continues_mem_push he hrawt (h.supported t ht rawt hrawt) hcont hin
      exact (hpush _ hpushed hin).resolve_right (by simp [hend])

theorem Sound.slot_visited (ha : w.Reach a) (ht : w.Transfer a)
    (hin : w.inBounds (a + 4#32) = true) : a + 4#32 ∈ s.visited := by
  by_cases hwalked : a ∈ s.walked
  · obtain ⟨-, -, e, he, hmark, -⟩ := h.walked a hwalked
    obtain ⟨raw, hraw, htrans⟩ := ht
    exact hmark _ ((expand_transfer he hraw (h.supported a hwalked raw hraw) htrans).1 hin)
  · obtain ⟨t, -, rfl, -, hslot⟩ := h.slots a (h.reach_visited hend ha) hwalked
    exact absurd ht (hslot ha).1

omit hend in
theorem Sound.target_leader {t : Word} (ha : a ∈ s.visited) (ht : w.Target a t)
    (hin : w.inBounds t = true) : t ∈ w.leaders s := by
  by_cases hwalked : a ∈ s.walked
  · by_cases hb : t = 0#32
    · subst hb
      rw [leaders, eq_entry_of_zero hin]
      exact mem_cons_self
    · obtain ⟨-, -, e, he, -, -⟩ := h.walked a hwalked
      obtain ⟨raw, hraw, hcf⟩ := ht
      have htrans : (classifyControlFlow raw a).transfers = true := by
        rcases hcf with hcf | hcf <;> rw [hcf] <;> rfl
      have hnext : t ∈ (classifyControlFlow raw a).nexts a := by
        rcases hcf with hcf | hcf <;> rw [hcf] <;> simp [CFInfo.nexts]
      have hs := h.supported a hwalked raw hraw
      refine mem_cons_of_mem _ (mem_flatMap.mpr ⟨a, hwalked, ?_⟩)
      rw [leadersOf_eq he hraw hs htrans]
      exact nexts_mem_follow htrans (expand_transfer he hraw hs htrans).2 hnext hin hb
  · obtain ⟨x, -, rfl, hno, -⟩ := h.slots a ha hwalked
    exact absurd ht (hno t)

end

end Walk

/-- Whatever the ROM and the bounds: if every step of the walk meets the condition, the set it returns
is closed under the flow of the machine and has the leaders. The difficult case is a delay slot that is
also entered as an instruction: it was seen, so that it is never walked, and what follows it is only
found if its transfer goes on there as well. -/
theorem walk_closed (w : Walk) (hok : ∀ s, w.Reached s → w.StepOk s) (r : Worklist.State Word)
    (hr : w.walkFunction = some r) : w.Closed r := by
  obtain ⟨⟨-, h⟩, hend⟩ := walk_invariant (I := fun s => w.Reached s ∧ w.Sound s)
    (fun s s' hI hs => ⟨.next (a := ()) hI.1 trivial hs, hI.2.step (hok s hI.1) hs⟩)
    ⟨.start rfl, Walk.sound_init⟩ hr
  exact ⟨fun a ha => h.reach_visited hend ha, fun a ha ht hin => h.slot_visited hend ha ht hin,
    fun a ha t ht hin _ => h.target_leader ha ht hin⟩

/-- A ROM that holds `words`, and the function that is all of it -/
def romWalk (words : List Word) : Walk where
  rom := words.flatMap fun w => (List.range 4).map (byteOf w)
  base := 0xBFC00000#32
  romEnd := BitVec.ofNat 32 (0xBFC00000 + 4 * words.length - 1)
  entry := 0xBFC00000#32
  hardCap := BitVec.ofNat 32 (0xBFC00000 + 4 * words.length)

/-- `beq $1, $2, X; Y: nop; bne $1, $0, Y; X: nop; jr $ra; nop`: both branches have a slot that the other one
goes to. -/
def loopWalk : Walk := romWalk [0x10220002#32, 0#32, 0x1420FFFE#32, 0#32, 0x03E00008#32, 0#32]

/-- All its instructions but the slot of the return -/
def loopFlow : List Word := [0xBFC00000#32, 0xBFC00004#32, 0xBFC00008#32, 0xBFC0000C#32, 0xBFC00010#32]

theorem plain_of_nop {w : Walk} {a : Word} (h : w.fetch a = some 0#32) :
    (∀ t, ¬ w.Target a t) ∧ ¬ w.Transfer a := by
  constructor
  · rintro t ⟨raw, hraw, hcf⟩
    cases h.symm.trans hraw
    rcases hcf with hcf | hcf <;> cases hcf
  · rintro ⟨raw, hraw, ht⟩
    cases h.symm.trans hraw
    cases ht

theorem loopFlow_of_reach {a : Word} (ha : loopWalk.Reach a) : a ∈ loopFlow := by
  have hclosed : loopFlow.all fun a => (loopWalk.fetch a).all fun raw =>
      ((classifyControlFlow raw a).nexts a).all loopFlow.contains := by decide
  induction ha with
  | entry => exact mem_cons_self
  | @next a b _ hnext _ ih =>
    obtain ⟨raw, hraw, hmem⟩ := hnext
    have hall : ∀ b ∈ (classifyControlFlow raw a).nexts a, b ∈ loopFlow := by
      simpa [hraw] using List.all_eq_true.mp hclosed a ih
    exact hall b hmem

theorem loopFlow_of_work {s : Worklist.State Word} (hs : loopWalk.Reached s) : ∀ a ∈ s.work, a ∈ loopFlow := by
  have hclosed : loopFlow.all fun a => (loopWalk.expand a).all fun e => e.push.all loopFlow.contains := by
    decide
  refine hs.invariant (I := fun s => ∀ a ∈ s.work, a ∈ loopFlow) ?_ ?_
  · rintro s rfl a ha
    rw [mem_singleton.mp ha]
    exact mem_cons_self
  · rintro - s s' hI - hstep b hb
    obtain ⟨-, rfl⟩ | ⟨a, work, hw, -, rfl⟩ | ⟨a, work, e, hw, -, -, he, rfl⟩ := step_cases hstep
    · exact hI b hb
    · exact hI b (hw ▸ mem_cons_of_mem a hb)
    · have hpush : ∀ b ∈ e.push, b ∈ loopFlow := by
        simpa [he] using List.all_eq_true.mp hclosed a (hI a (hw ▸ mem_cons_self))
      rcases mem_append.mp hb with hb | hb
      · exact hI b (hw ▸ mem_cons_of_mem a hb)
      · exact hpush b hb

/-- Both slots are reached as instructions, and the walk goes on behind their branches. -/
theorem walk_closed_loop : loopWalk.Reach 0xBFC00004#32 ∧ loopWalk.Reach 0xBFC0000C#32 ∧
    ∃ r, loopWalk.walkFunction = some r ∧ loopWalk.Closed r := by
  have hbeq : loopWalk.fetch 0xBFC00000#32 = some 0x10220002#32 := by decide
  have hbne : loopWalk.fetch 0xBFC00008#32 = some 0x1420FFFE#32 := by decide
  have hentry : loopWalk.Reach 0xBFC00000#32 := .entry (by decide)
  have hX : loopWalk.Reach 0xBFC0000C#32 := hentry.next ⟨_, hbeq, by decide⟩ (by decide)
  have hback : loopWalk.Reach 0xBFC00008#32 := hentry.next ⟨_, hbeq, by decide⟩ (by decide)
  have hok : ∀ s, loopWalk.Reached s → loopWalk.StepOk s := by
    intro s hs a work hw _ _
    have ha := loopFlow_of_work hs a (hw ▸ mem_cons_self)
    have hwords : loopFlow.all fun a => (loopWalk.fetch a).all fun raw =>
        Walk.supported a raw && classifyControlFlow raw a ≠ .rfe := by decide
    have hword : ∀ raw, loopWalk.fetch a = some raw →
        Walk.supported a raw = true ∧ classifyControlFlow raw a ≠ .rfe := fun raw hraw => by
      simpa [hraw] using List.all_eq_true.mp hwords a ha
    refine ⟨fun raw hraw => (hword raw hraw).1, fun raw hraw h => absurd h (hword raw hraw).2,
      fun ht _ _ => ?_⟩
    simp only [loopFlow, mem_cons, not_mem_nil, or_false] at ha
    obtain rfl | rfl | rfl | rfl | rfl := ha
    · have hslot := plain_of_nop (w := loopWalk) (a := 0xBFC00004#32) (by decide)
      exact ⟨hslot.1, fun _ => ⟨hslot.2, _, hbeq, trivial⟩⟩
    · exact absurd ht (plain_of_nop (by decide)).2
    · have hslot := plain_of_nop (w := loopWalk) (a := 0xBFC0000C#32) (by decide)
      exact ⟨hslot.1, fun _ => ⟨hslot.2, _, hbne, trivial⟩⟩
    · exact absurd ht (plain_of_nop (by decide)).2
    · exact ⟨(plain_of_nop (by decide)).1, fun hr => absurd (loopFlow_of_reach hr) (by decide)⟩
  have hwalk : loopWalk.walkFunction = some ⟨[0xBFC00014#32, 0xBFC00010#32, 0xBFC0000C#32, 0xBFC00008#32,
      0xBFC00004#32, 0xBFC00000#32], [], [0xBFC00010#32, 0xBFC00008#32, 0xBFC00000#32]⟩ :=
    walk_of_steps 5 (by decide +kernel) rfl
  exact ⟨hback.next ⟨_, hbne, by decide⟩ (by decide), hX, _, hwalk, walk_closed loopWalk hok _ hwalk⟩

/-- `beq $1, $2, X; nop; j entry; X: nop; jr $ra; nop`: `X` is the slot of the jump and the target of the
branch. -/
def sharedSlotWalk : Walk := romWalk [0x10220002#32, 0#32, 0x0BF00000#32, 0#32, 0x03E00008#32, 0#32]

/-- The machine comes to the `jr $ra`; the walk does not. -/
theorem shared_slot_not_followed : sharedSlotWalk.Reach 0xBFC00010#32 ∧
    ∃ r, sharedSlotWalk.walkFunction = some r ∧ 0xBFC00010#32 ∉ r.visited := by
  constructor
  · have hbranch : sharedSlotWalk.Next 0xBFC00000#32 0xBFC0000C#32 :=
      ⟨0x10220002#32, by decide, by decide⟩
    have hnop : sharedSlotWalk.Next 0xBFC0000C#32 0xBFC00010#32 := ⟨0x00000000#32, by decide, by decide⟩
    exact .next (.next (.entry (by decide)) hbranch (by decide)) hnop (by decide)
  · refine ⟨⟨[0xBFC0000C#32, 0xBFC00008#32, 0xBFC00004#32, 0xBFC00000#32], [],
      [0xBFC00008#32, 0xBFC00000#32]⟩, walk_of_steps 4 (by decide +kernel) rfl, by decide⟩

end PsxRecomp.Bios
