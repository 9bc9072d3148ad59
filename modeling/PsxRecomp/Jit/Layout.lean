import PsxRecomp.Jit.EmitOne

/-!
# `Jit/Layout.lean` — the shape of an accepted fragment

What can be said of `overlay_sljit_try_compile` without running anything.
-/

set_option autoImplicit false

namespace PsxRecomp.Jit

open Linear Staged Option
open Gen (emit state modify)

/-! ## 1. The number of slots stays as it is -/

def slotCount (κ : GprCache) : Nat := κ.slots.length

section
variable {n : Reg}

theorem keeps_touch (k : Nat) (f : GprSlot → GprSlot) : Keeps slotCount (touch k f) :=
  .modify fun κ => update_length κ k _

theorem keeps_gprAlloc : Keeps slotCount (gprAlloc n) := by
  refine .bind .state fun κ => ?_
  split
  · exact .pure _
  · exact .bind (fun _ => rfl) fun _ => .bind (.modify fun κ => update_length κ _ _) fun _ => .pure _

theorem keeps_gprSrc : Keeps slotCount (gprSrc n) := by
  unfold gprSrc
  split
  · exact .pure _
  · refine .bind .state fun κ => ?_
    split
    · exact .bind (.pure _) fun k => .bind (keeps_touch _ _) fun _ => .pure _
    · exact .bind keeps_gprAlloc fun k => .bind (.emit _) fun _ => .bind (.pure _) fun _ =>
        .bind (keeps_touch _ _) fun _ => .pure _

theorem keeps_gprDst : Keeps slotCount (gprDst n) := by
  unfold gprDst
  split
  · exact .pure _
  · exact .bind keeps_gprAlloc fun k => .bind (keeps_touch _ _) fun _ => .pure _

theorem keeps_gprUnpin : Keeps slotCount gprUnpin := .modify fun _ => List.length_map _

theorem keeps_gprReset : Keeps slotCount gprReset := .modify fun _ => List.length_map _

theorem keeps_gprFlush : Keeps slotCount gprFlush := fun _ => List.length_map _

theorem keeps_asReg (a : Opnd) (r : HReg) : Keeps slotCount (asReg a r) := by
  unfold asReg
  split
  · exact .bind (.emit _) fun _ => .pure _
  · exact .pure _

theorem keeps_notBothImm (a b : Opnd) : Keeps slotCount (notBothImm a b) := by
  unfold notBothImm
  split
  · exact keeps_asReg _ _
  · exact .pure _

theorem keeps_emitOne (insn : Word) : Keeps slotCount (emitOne insn) := by
  unfold emitOne emitSpecial done emitShiftImm emitShiftVar emitAluRR emitNor emitSlt emitMove
    emitMoveTo emitMult emitDiv emitDivu emitDivOperands emitAddi emitLogicImm emitLoad emitStore
    emitAddr emitHelper2 emitOp
  repeat' with_reducible first
    | exact keeps_gprSrc
    | exact keeps_gprDst
    | exact keeps_gprUnpin
    | exact keeps_gprReset
    | exact keeps_gprFlush
    | exact keeps_asReg _ _
    | exact keeps_notBothImm _ _
    | exact .emit _
    | exact .pure _
    | refine .bind ?_ fun _ => ?_
    | split

end

/-! ## 2. The first pass -/

variable {i : Nat}

section
variable {image : Nat → Option Word} {word : Nat → Word} {ep : Word}

/-- What the first pass knows of the words from `i` on. -/
structure Scanned (word : Nat → Word) (ep : Word) (i : Nat) (s : Scan) : Prop where
  bound : i + 2 ≤ s.fragWords
  /-- the fragment ends with `jr $ra` and its delay slot -/
  last : classifyControl (word (s.fragWords - 2)) (4 * (s.fragWords - 2)) ep = .ret
  ds : ∀ j, i ≤ j → j + 1 < s.fragWords → classifyControl (word j) (4 * j) ep ≠ .none →
    j + 1 ∈ s.ds
  brs : ∀ j t, i ≤ j → j + 1 < s.fragWords →
    classifyControl (word j) (4 * j) ep = .branch t ∨ classifyControl (word j) (4 * j) ep = .jump t →
    t ∈ s.brs

theorem Scanned.cons {s : Scan} (hs : Scanned word ep (i + 1) s)
    (hds : classifyControl (word i) (4 * i) ep ≠ .none → i + 1 ∈ s.ds)
    (hbrs : ∀ t, classifyControl (word i) (4 * i) ep = .branch t ∨
      classifyControl (word i) (4 * i) ep = .jump t → t ∈ s.brs) : Scanned word ep i s where
  bound := by
    have := hs.bound
    omega
  last := hs.last
  ds := by
    intro j hj hlt hc
    rcases Nat.eq_or_lt_of_le hj with rfl | hj
    · exact hds hc
    · exact hs.ds j hj hlt hc
  brs := by
    intro j t hj hlt hc
    rcases Nat.eq_or_lt_of_le hj with rfl | hj
    · exact hbrs t hc
    · exact hs.brs j t hj hlt hc

theorem scanFrom_spec (himg : ∀ i w, image i = some w → w = word i) {fuel : Nat}
    {acc s : Scan} (h : scanFrom image ep fuel i acc = some s) :
    acc.ds ⊆ s.ds ∧ acc.brs ⊆ s.brs ∧ Scanned word ep i s := by
  induction fuel generalizing i acc with
  | zero => cases h
  | succ fuel ih =>
    rw [scanFrom] at h
    cases hw : image i with
    | none =>
      rw [hw] at h
      cases h
    | some w =>
      obtain rfl := himg i w hw
      simp only [hw] at h
      cases hc : classifyControl (word i) (4 * i) ep with
      | abort =>
        rw [hc] at h
        cases h
      | ret =>
        rw [hc] at h
        cases h
        refine ⟨List.subset_cons_self _ _, List.Subset.refl _, ?_⟩
        have honly (j : Nat) (hj : i ≤ j) (hlt : j + 1 < i + 2) : j = i := by omega
        refine ⟨Nat.le_refl _, by simpa using hc, ?_, ?_⟩
        · intro j hj hlt _
          obtain rfl := honly j hj hlt
          exact List.mem_cons_self
        · intro j t hj hlt ht
          obtain rfl := honly j hj hlt
          simp [hc] at ht
      | none =>
        rw [hc] at h
        obtain ⟨hds, hbrs, hs⟩ := ih h
        exact ⟨hds, hbrs, hs.cons (fun hn => absurd hc hn) fun t ht => by simp [hc] at ht⟩
      | call | tailjump =>
        rw [hc] at h
        obtain ⟨hds, hbrs, hs⟩ := ih h
        exact ⟨fun d hd => hds (List.mem_cons_of_mem _ hd), hbrs,
          hs.cons (fun _ => hds List.mem_cons_self) fun t ht => by simp [hc] at ht⟩
      | branch t | jump t =>
        rw [hc] at h
        simp only at h
        split at h
        · cases h
        · obtain ⟨hds, hbrs, hs⟩ := ih h
          refine ⟨fun d hd => hds (List.mem_cons_of_mem _ hd),
            fun b hb => hbrs (List.mem_cons_of_mem _ hb),
            hs.cons (fun _ => hds List.mem_cons_self) fun u hu => ?_⟩
          rw [hc] at hu
          rcases hu with hu | hu <;> cases hu
          exact hbrs List.mem_cons_self

end

/-! ## 3. The second pass -/

def Blank (κ : GprCache) : Prop :=
  ∀ (k : Nat) (s : GprSlot), κ.slots[k]? = some s → s.reg = none ∧ s.pinned = false

variable {κ : GprCache}

theorem Blank.uncached (hb : Blank κ) (n : Reg) : Uncached κ n := by
  intro k s hk hn
  rw [(hb k s hk).1] at hn
  cases hn

/-- The number of slots is right for the registers of the fragment. -/
def Room (used : Finset Reg) (κ : GprCache) : Prop := used.card ≤ slotCount κ ∨ 4 ≤ slotCount κ

theorem Blank.wf {used : Finset Reg} (hb : Blank κ) (hr : Room used κ) :
    Wf used [] κ where
  distinct := fun hi _ hs _ => absurd hs (hb.uncached _ _ _ hi)
  inUse := fun hi hs => absurd hs (hb.uncached _ _ _ hi)
  pins := by
    intro k s hk hp
    rw [(hb k s hk).2] at hp
    cases hp
  room := hr

theorem blank_reset (κ : GprCache) : Blank (gprReset κ).gen := by
  intro k s hk
  simp only [gprReset, Gen.modify, List.getElem?_map, map_eq_some_iff] at hk
  obtain ⟨t, -, rfl⟩ := hk
  exact ⟨rfl, rfl⟩

section
variable {entry ep insn : Word} {i : Nat} {κ : GprCache} {p p' : Pending}

theorem emitHead_pending (h : (emitHead entry ep i insn κ).val = some p') (hp : p' ≠ .none) :
    classifyControl insn (4 * i) ep ≠ .none := by
  intro hc
  simp only [emitHead, hc, bind_val] at h
  cases hst : (emitOne insn κ).val <;> rw [hst] at h <;> cases h
  exact hp rfl

theorem emitHead_call (hc : classifyControl insn (4 * i) ep = .call) :
    (emitHead entry ep i insn κ).val = some .call := by
  simp only [emitHead, hc]
  split <;> rfl

theorem emitTransfer_val (h : (emitTransfer p κ).val = some p') : p' = .none ∧ p ≠ .call := by
  cases p with
  | br tw cond => cases cond <;> cases h <;> exact ⟨rfl, by simp⟩
  | none | call => cases h
  | ret | tail =>
    cases h
    exact ⟨rfl, by simp⟩

theorem emitSlot_val (h : (emitSlot ep i p insn κ).val = some p') :
    p' = .none ∧ p ≠ .call ∧ classifyControl insn (4 * i) ep = .none ∧
      (emitOne insn κ).val = .ok := by
  cases hc : classifyControl insn (4 * i) ep with
  | none =>
    simp only [emitSlot, hc, bind_val] at h
    cases hst : (emitOne insn κ).val with
    | ok =>
      rw [hst] at h
      obtain ⟨hnone, hcall⟩ := emitTransfer_val h
      exact ⟨hnone, hcall, rfl, rfl⟩
    | term | abort =>
      rw [hst] at h
      cases h
  | _ =>
    simp only [emitSlot, hc] at h
    cases h

theorem keeps_emitTransfer : Keeps slotCount (emitTransfer p) := by
  unfold emitTransfer emitOp
  split <;> repeat' with_reducible first
    | exact keeps_gprReset
    | exact .emit _
    | exact .pure _
    | refine .bind ?_ fun _ => ?_

theorem keeps_emitSlot : Keeps slotCount (emitSlot ep i p insn) := by
  unfold emitSlot
  split
  · refine .bind (keeps_emitOne insn) fun st => ?_
    split
    · exact .bind keeps_gprFlush fun _ => keeps_emitTransfer
    · exact .pure _
  · exact .pure _

theorem keeps_emitMove (rd : Reg) (s : Opnd) : Keeps slotCount (emitMove rd s) :=
  .bind keeps_gprDst fun _ => .emit _

theorem keeps_emitCondToS1 : Keeps slotCount (emitCondToS1 insn) := by
  unfold emitCondToS1 emitCondEq emitCondZero emitOp
  repeat' with_reducible first
    | exact keeps_gprSrc
    | exact keeps_gprUnpin
    | exact keeps_asReg _ _
    | exact keeps_notBothImm _ _
    | exact .emit _
    | refine .bind ?_ fun _ => ?_
    | split

theorem keeps_emitHead : Keeps slotCount (emitHead entry ep i insn) := by
  unfold emitHead emitOp
  repeat' with_reducible first
    | exact keeps_gprSrc
    | exact keeps_gprDst
    | exact keeps_gprUnpin
    | exact keeps_emitOne _
    | exact keeps_emitMove _ _
    | exact keeps_emitCondToS1
    | exact .emit _
    | exact .pure _
    | refine .bind ?_ fun _ => ?_
    | split

end

/-! ## 4. An accepted fragment -/

/-- A fragment the compiler accepted: the scan, the registers it uses, the cache it starts with, its
code, and what the two passes have established. -/
structure Frag (entry ep : Word) (word : Nat → Word) where
  scan : Scan
  used : Finset Reg
  start : GprCache
  code : List (Item Nat Instr)
  scanned : Scanned word ep 0 scan
  valid : ∀ t ∈ scan.brs, scan.validTarget t = true
  refs : ∀ j < scan.fragWords, gprRefMask (word j) ⊆ used
  blank : Blank start
  room : Room used start
  emitted : emitFrom scan entry ep 0 .none start ((List.range scan.fragWords).map word) = some code

namespace Frag
variable {entry ep : Word} {word : Nat → Word} (F : Frag entry ep word)

abbrev size : Nat := F.scan.fragWords

/-- The words from `i` on. -/
def wordsFrom (i : Nat) : List Word := ((List.range F.size).map word).drop i

theorem wordsFrom_cons (hi : i < F.size) :
    F.wordsFrom i = word i :: F.wordsFrom (i + 1) := by
  have hlen : i < ((List.range F.size).map word).length := by simpa using hi
  rw [wordsFrom, List.drop_eq_getElem_cons hlen]
  simp [wordsFrom]

/-- The first pass has seen every target, and a branch target is never a delay slot. -/
theorem target {j : Nat} {t : Int} (hj : j + 1 < F.size)
    (hc : classifyControl (word j) (4 * j) ep = .branch t ∨
      classifyControl (word j) (4 * j) ep = .jump t) :
    0 ≤ t ∧ t % 4 = 0 ∧ (t / 4).toNat < F.size ∧ (t / 4).toNat ∉ F.scan.ds ∧
      F.scan.isTarget (t / 4).toNat = true := by
  have hmem := F.scanned.brs j t (Nat.zero_le j) hj hc
  have hv := F.valid t hmem
  simp only [Scan.validTarget, Bool.and_eq_true, decide_eq_true_eq, Bool.not_eq_true',
    List.contains_eq_mem, decide_eq_false_iff_not] at hv
  refine ⟨hv.1.1.1, hv.1.1.2, hv.1.2, hv.2, ?_⟩
  simp only [Scan.isTarget, List.any_eq_true]
  exact ⟨t, hmem, by simp⟩

theorem isTarget_not_ds (h : F.scan.isTarget i = true) : i < F.size ∧ i ∉ F.scan.ds := by
  simp only [Scan.isTarget, List.any_eq_true, decide_eq_true_eq] at h
  obtain ⟨t, ht, rfl⟩ := h
  have hv := F.valid t ht
  simp only [Scan.validTarget, Bool.and_eq_true, Bool.not_eq_true', List.contains_eq_mem,
    decide_eq_true_eq, decide_eq_false_iff_not] at hv
  exact ⟨hv.1.2, hv.2⟩

theorem not_last (hi : i < F.size) (hds : i ∉ F.scan.ds) : i + 2 ≤ F.size := by
  have hb := F.scanned.bound
  by_contra hlast
  have hi' : i = F.size - 2 + 1 := by
    simp only [size] at hi hlast ⊢
    omega
  refine hds (hi' ▸ F.scanned.ds (F.size - 2) (Nat.zero_le _) ?_ ?_)
  · simp only [size]
    omega
  · simp only [size]
    rw [F.scanned.last]
    simp

/-- `code` is the code of word `i` (behind its label, if it has one) and of what follows, compiled
with the cache `κ`. -/
structure Inside (i : Nat) (κ : GprCache) (code : List (Item Nat Instr)) : Prop where
  bound : i + 2 ≤ F.size
  count : slotCount κ = slotCount F.start
  shape : ∃ p rest, (emitHead entry ep i (word i) κ).val = some p ∧
    code = (emitHead entry ep i (word i) κ).code.map .instr ++ rest ∧
    emitFrom F.scan entry ep (i + 1) p (emitHead entry ep i (word i) κ).gen (F.wordsFrom (i + 1)) =
      some rest

theorem emitFrom_cons {p : Pending} {w : Word} {ws : List Word}
    {code : List (Item Nat Instr)} (h : emitFrom F.scan entry ep i p κ (w :: ws) = some code) :
    ∃ c p' κ' rest, emitWord F.scan entry ep i p w κ = some (c, p', κ') ∧
      emitFrom F.scan entry ep (i + 1) p' κ' ws = some rest ∧ code = c ++ rest := by
  rw [emitFrom, bind_eq_some_iff] at h
  obtain ⟨⟨c, p', κ'⟩, hw, hrest⟩ := h
  rw [map_eq_some_iff] at hrest
  obtain ⟨rest, hrest, rfl⟩ := hrest
  exact ⟨c, p', κ', rest, hw, hrest, rfl⟩

theorem emitWord_some {p p' : Pending} {κ' : GprCache} {w : Word}
    {c : List (Item Nat Instr)} (h : emitWord F.scan entry ep i p w κ = some (c, p', κ')) :
    let join := (do gprFlush; gprReset : Emit Unit) κ
    let κ₁ := if F.scan.isTarget i then join.gen else κ
    let out := (if p = .none then emitHead entry ep i w else emitSlot ep i p w) κ₁
    out.val = some p' ∧ κ' = out.gen ∧
      c = (if F.scan.isTarget i then join.code.map .instr ++ [.label i] else []) ++
        out.code.map .instr := by
  simp only [emitWord, map_eq_some_iff, Prod.mk.injEq] at h
  obtain ⟨q, hq, rfl, rfl, rfl⟩ := h
  exact ⟨hq, rfl, rfl⟩

theorem after_from {tw : Nat} (ht : F.scan.isTarget tw = true) (k : Nat) :
    ∀ {i : Nat} {p : Pending} {κ : GprCache} {code : List (Item Nat Instr)}, tw = i + k →
      slotCount κ = slotCount F.start → (p ≠ .none → i ∈ F.scan.ds) →
      emitFrom F.scan entry ep i p κ (F.wordsFrom i) = some code →
      ∃ κ' code', after tw code = some code' ∧ Blank κ' ∧ F.Inside tw κ' code' := by
  obtain ⟨hlt, hds⟩ := F.isTarget_not_ds ht
  induction k with
  | zero =>
    rintro i p κ code rfl hcount hp hem
    have hpnone : p = .none := by
      by_contra hne
      exact hds (hp hne)
    rw [F.wordsFrom_cons hlt] at hem
    obtain ⟨c, p', κ', rest, hw, hrest, rfl⟩ := F.emitFrom_cons hem
    obtain ⟨hval, rfl, rfl⟩ := F.emitWord_some hw
    simp only [ht, if_true, if_pos hpnone] at hval hrest ⊢
    refine ⟨_, _, ?_, blank_reset _, F.not_last hlt hds, ?_, p', rest, hval, rfl, hrest⟩
    · rw [List.append_assoc, List.append_assoc, after_instrs]
      exact after_label_self _ _
    · exact (Keeps.bind keeps_gprFlush (fun _ => keeps_gprReset) κ).trans hcount
  | succ k ih =>
    rintro i p κ code rfl hcount hp hem
    have hi : i < F.size := by omega
    rw [F.wordsFrom_cons hi] at hem
    obtain ⟨c, p', κ', rest, hw, hrest, rfl⟩ := F.emitFrom_cons hem
    obtain ⟨hval, rfl, hcode⟩ := F.emitWord_some hw
    have hskip : after (i + (k + 1)) (c ++ rest) = after (i + (k + 1)) rest := by
      rw [hcode]
      split
      · simp only [List.append_assoc, List.cons_append, List.nil_append, after_instrs]
        rw [Linear.after, if_neg (by omega), after_instrs]
      · simp [List.nil_append, after_instrs]
    rw [hskip]
    refine ih (by omega) ?_ ?_ hrest
    · have hcount' : slotCount (if F.scan.isTarget i then
          ((do gprFlush; gprReset : Emit Unit) κ).gen else κ) = slotCount F.start := by
        split
        · exact (Keeps.bind keeps_gprFlush (fun _ => keeps_gprReset) κ).trans hcount
        · exact hcount
      split
      · exact (keeps_emitHead _).trans hcount'
      · exact (keeps_emitSlot _).trans hcount'
    · intro hp'
      split at hval
      · exact F.scanned.ds i (Nat.zero_le i) (by simp only [size] at hlt; omega)
          (emitHead_pending hval hp')
      · exact absurd (emitSlot_val hval).1 hp'

/-- Behind the label of a target comes the code of that word, compiled with nothing cached. -/
theorem after_target {tw : Nat} (ht : F.scan.isTarget tw = true) :
    ∃ κ code, after tw F.code = some code ∧ Blank κ ∧ F.Inside tw κ code :=
  F.after_from ht tw (Nat.zero_add tw).symm rfl (fun h => absurd rfl h) F.emitted

end Frag

def ramSize : Nat := 2 * 1024 * 1024

theorem gprRefMask_subset {ws : List Word} {w : Word} (h : w ∈ ws) :
    gprRefMask w ⊆ ws.foldr (fun w m => gprRefMask w ∪ m) ∅ := by
  induction ws with
  | nil => cases h
  | cons v ws ih =>
    rcases List.mem_cons.mp h with rfl | h
    · exact Finset.subset_union_left
    · exact (ih h).trans Finset.subset_union_right

theorem room_start (T : Target) (used : Finset Reg) (s : GprSlot) (l : Nat) :
    Room used ⟨List.replicate (min used.card T.gprSlotsMax) s, l⟩ := by
  have := T.enough
  simp only [Room, slotCount, List.length_replicate, Target.gprSlotsMax]
  omega

theorem exists_frag {T : Target} {entry : Word} {bytes : Nat → BitVec 8}
    {code : List (Item Nat Instr)} (h : tryCompile T entry bytes ramSize 0 = some code) :
    ∃ F : Frag entry (entry &&& 0x1FFFFFFF#32)
        fun i => imgWord bytes ((entry &&& 0x1FFFFFFF#32).toNat + 4 * i),
      F.code = code ∧ (entry &&& 0x1FFFFFFF#32).toNat + 4 * F.size ≤ ramSize := by
  generalize hep : entry &&& 0x1FFFFFFF#32 = ep at h ⊢
  have hbase : ((0 : Word) &&& 0x1FFFFFFF#32) = 0#32 := by decide
  simp only [tryCompile, hep, hbase, BitVec.toNat_ofNat, Nat.zero_mod, Nat.sub_zero] at h
  split at h
  · cases h
  rw [bind_eq_some_iff] at h
  obtain ⟨s, hscan, h⟩ := h
  split at h
  · cases h
  rename_i hbad
  simp only [not_or, Bool.not_eq_true', Bool.not_eq_false, List.all_eq_true] at hbad
  obtain ⟨hmax, hsize, hvalid⟩ := hbad
  have himg : ∀ i w, (fun i => if ep.toNat + 4 * i + 4 ≤ ramSize then
      some (imgWord bytes (ep.toNat + 4 * i)) else none) i = some w →
      w = (fun i => imgWord bytes (ep.toNat + 4 * i)) i := by
    intro i w hw
    simp only [ite_none_right_eq_some, some.injEq] at hw
    exact hw.2.symm
  obtain ⟨-, -, hs⟩ := scanFrom_spec himg hscan
  refine ⟨⟨s, _, _, code, hs, hvalid, ?_, ?_, room_start T _ _ _, h⟩, rfl, by simpa using hsize⟩
  · intro j hj
    exact gprRefMask_subset (List.mem_map.mpr ⟨j, List.mem_range.mpr hj, rfl⟩)
  · intro k t hk
    have ht := List.eq_of_mem_replicate (List.mem_of_getElem? hk)
    rw [ht]
    exact ⟨rfl, rfl⟩

end PsxRecomp.Jit
