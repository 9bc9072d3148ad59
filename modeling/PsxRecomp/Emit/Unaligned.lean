import PsxRecomp.Runtime.Ram
import PsxRecomp.Emit.StrictAgree
import PsxRecomp.Emit.CodeGenAgree

/-!
# `Emit/Unaligned.lean` — `LWL`, `LWR`, `SWL` and `SWR` in plain RAM

The unaligned accesses exist three times: as text of the strict translator, as the `psx_*` helpers that
generated code calls, and as the helpers of the interpreter. In RAM, where a word is its four bytes, what
each of them does is said byte by byte.
-/

set_option autoImplicit false

namespace PsxRecomp.Unaligned

open CLang Words Ram Option BitVec Strict Cpu CodeGen

/-! ## 1. The merges, byte by byte -/

section
variable (a word v : Word) {j : Nat}

theorem toNat_and_three : (a &&& 3#32).toNat = a.toNat % 4 := by
  exact Nat.and_two_pow_sub_one_eq_mod a.toNat 2

theorem toNat_up : ((a &&& 3#32) * 8#32).toNat = 8 * (a.toNat % 4) := by
  rw [toNat_mul, toNat_and_three, show (8#32).toNat = 8 from rfl]
  omega

theorem toNat_down : ((3#32 - (a &&& 3#32)) * 8#32).toNat = 8 * (3 - a.toNat % 4) := by
  have hle : a &&& 3#32 ≤ 3#32 := le_def.mpr (and_three_le a)
  rw [toNat_mul, toNat_sub_of_le hle, toNat_and_three, show (3#32).toNat = 3 from rfl,
    show (8#32).toNat = 8 from rfl]
  omega

theorem toNat_aligned : (a &&& ~~~3).toNat = a.toNat - a.toNat % 4 := by
  show (a &&& ~~~3#32).toNat = _
  have hsplit : (a &&& ~~~3#32) + (a &&& 3#32) = a := by
    rw [add_eq_or_of_and_eq_zero, ← and_or_distrib_left]
    · rw [show ~~~3#32 ||| 3#32 = BitVec.allOnes 32 from rfl, and_allOnes]
    · rw [show a &&& ~~~3#32 &&& (a &&& 3#32) = a &&& a &&& (~~~3#32 &&& 3#32) by ac_rfl,
        show ~~~3#32 &&& 3#32 = 0#32 from rfl, and_zero]
  have hnat := congrArg BitVec.toNat hsplit
  have hlow := toNat_and_three a
  rw [toNat_add, hlow] at hnat
  omega

theorem and_ite (p : Prop) [Decidable p] (b : Byte) :
    b &&& (if p then 0xFF#8 else 0#8) = if p then b else 0#8 := by
  split_ifs
  · exact and_allOnes
  · exact and_zero

/-- `LWL` loads the upper bytes of the register, from the lower end of the memory word. -/
theorem byteOf_lwlMerge (hj : j < 4) : byteOf (lwlMerge a word v) j =
    if j < 3 - a.toNat % 4 then byteOf v j else byteOf word (j - (3 - a.toNat % 4)) := by
  have hmask : ∀ k < 4, byteOf (1#32 <<< (8 * k) - 1#32) j = if j < k then 0xFF#8 else 0#8 := by
    revert j
    decide
  rw [lwlMerge_eq, toNat_down, byteOf_or, byteOf_and, byteOf_shiftLeft _ hj, hmask _ (by omega), and_ite]
  split_ifs <;> simp

/-- `LWR` loads the lower bytes of the register, from the upper end of the memory word. -/
theorem byteOf_lwrMerge (hj : j < 4) : byteOf (lwrMerge a word v) j =
    if j < 4 - a.toNat % 4 then byteOf word (j + a.toNat % 4) else byteOf v j := by
  have hmask : ∀ k < 4, byteOf (~~~(0xFFFFFFFF#32 >>> (8 * k))) j =
      if ¬ j < 4 - k then 0xFF#8 else 0#8 := by
    revert j
    decide
  rw [lwrMerge_eq, toNat_up, byteOf_or, byteOf_and, byteOf_ushiftRight, hmask _ (by omega), and_ite]
  split_ifs with hlow
  · simp
  · rw [byteOf_of_ge word (by omega)]
    simp

/-- `SWL` stores the upper bytes of the register, and keeps the memory word behind them. -/
theorem byteOf_swlMerge (hj : j < 4) : byteOf (swlMerge a word v) j =
    if j ≤ a.toNat % 4 then byteOf v (j + (3 - a.toNat % 4)) else byteOf word j := by
  have hmask : ∀ k < 4, byteOf (0xFFFFFF00#32 <<< (8 * k)) j = if ¬ j ≤ k then 0xFF#8 else 0#8 := by
    revert j
    decide
  rw [swlMerge_eq, toNat_up, toNat_down, byteOf_or, byteOf_and, byteOf_ushiftRight, hmask _ (by omega),
    and_ite]
  split_ifs with hlow
  · simp
  · rw [byteOf_of_ge v (by omega)]
    simp

/-- `SWR` stores the lower bytes of the register, and keeps the memory word before them. -/
theorem byteOf_swrMerge (hj : j < 4) : byteOf (swrMerge a word v) j =
    if j < a.toNat % 4 then byteOf word j else byteOf v (j - a.toNat % 4) := by
  have hmask : ∀ k < 4, byteOf (0x00FFFFFF#32 >>> (8 * (3 - k))) j = if j < k then 0xFF#8 else 0#8 := by
    revert j
    decide
  rw [swrMerge_eq, toNat_up, toNat_down, byteOf_or, byteOf_and, byteOf_shiftLeft _ hj,
    hmask _ (by omega), and_ite]
  split_ifs <;> simp

end

/-! ## 2. Plain RAM -/

/-- The addresses from `lo` to `hi` are plain RAM: the byte at `lo + i` is the cell `base + i`, and a
read does nothing else. -/
structure PlainRegion (R : Runtime (Nat → Byte)) (lo hi base : Nat) : Prop where
  lo_aligned : lo % 4 = 0
  hi_aligned : hi % 4 = 0
  hi_le : hi ≤ 2 ^ 32
  read : ∀ (w : Word) m, w.toNat % 4 = 0 → lo ≤ w.toNat → w.toNat < hi →
    R.readWord w m = (leWord m (base + (w.toNat - lo)), m)
  write : ∀ (w v : Word) m, w.toNat % 4 = 0 → lo ≤ w.toNat → w.toNat < hi →
    R.writeWord w v m = Ram.write m (base + (w.toNat - lo)) (Width.word.bytes v)

def cellOf (lo base : Nat) (a : Word) : Nat := base + (a.toNat - lo)

def wordCell (lo base : Nat) (a : Word) : Nat := cellOf lo base a - a.toNat % 4

/-- The memory after `SWR` at `a` with the value `v`, and after `SWL` at `a` -/
def storedRight (m : Nat → Byte) (lo base : Nat) (a v : Word) : Nat → Byte :=
  Ram.write m (wordCell lo base a) (Width.word.bytes (swrMerge a (leWord m (wordCell lo base a)) v))

def storedLeft (m : Nat → Byte) (lo base : Nat) (a v : Word) : Nat → Byte :=
  Ram.write m (wordCell lo base a) (Width.word.bytes (swlMerge a (leWord m (wordCell lo base a)) v))

section
variable {R : Runtime (Nat → Byte)} {lo hi base : Nat} (hram : PlainRegion R lo hi base) {a : Word}
  (ha : lo ≤ a.toNat) (ha' : a.toNat < hi)
include hram ha

theorem PlainRegion.wordCell_eq : wordCell lo base a = base + ((a &&& ~~~3).toNat - lo) := by
  have := hram.lo_aligned
  rw [wordCell, cellOf, toNat_aligned]
  omega

theorem PlainRegion.low_le : wordCell lo base a + a.toNat % 4 = cellOf lo base a := by
  have := hram.lo_aligned
  rw [wordCell, cellOf]
  omega

include ha'

theorem PlainRegion.aligned : (a &&& ~~~3).toNat % 4 = 0 ∧ lo ≤ (a &&& ~~~3).toNat ∧
    (a &&& ~~~3).toNat < hi := by
  have hlo := hram.lo_aligned
  rw [toNat_aligned]
  omega

theorem PlainRegion.readWord (m : Nat → Byte) :
    R.readWord (a &&& ~~~3) m = (leWord m (wordCell lo base a), m) := by
  obtain ⟨haligned, hlo, hhi⟩ := hram.aligned ha ha'
  rw [hram.wordCell_eq ha]
  exact hram.read _ m haligned hlo hhi

theorem PlainRegion.writeWord (v : Word) (m : Nat → Byte) :
    R.writeWord (a &&& ~~~3) v m = Ram.write m (wordCell lo base a) (Width.word.bytes v) := by
  obtain ⟨haligned, hlo, hhi⟩ := hram.aligned ha ha'
  rw [hram.wordCell_eq ha]
  exact hram.write _ v m haligned hlo hhi

theorem PlainRegion.storeMerge (merge : Word → Word → Word → Word) (c : Cpu (Nat → Byte)) (v : Word) :
    interpStoreMerge R merge c a v = { c with
      mem := Ram.write c.mem (wordCell lo base a)
        (Width.word.bytes (merge a (leWord c.mem (wordCell lo base a)) v)) } := by
  simp only [interpStoreMerge, Cpu.readWord, Cpu.writeWord, hram.readWord ha ha',
    hram.writeWord ha ha']

omit ha'

theorem PlainRegion.storeRight (m : Nat → Byte) (v : Word) (x : Nat) :
    storedRight m lo base a v x =
      if cellOf lo base a ≤ x ∧ x < wordCell lo base a + 4 then byteOf v (x - cellOf lo base a)
      else m x := by
  have hcell := hram.low_le ha
  rw [storedRight, write_bytes]
  by_cases hin : wordCell lo base a ≤ x ∧ x < wordCell lo base a + 4
  · have hj : x - wordCell lo base a < 4 := by omega
    rw [if_pos hin, byteOf_swrMerge _ _ _ hj, byteOf_leWord _ _ hj, Nat.add_sub_cancel' hin.1]
    by_cases hlow : x - wordCell lo base a < a.toNat % 4
    · rw [if_pos hlow, if_neg (by omega)]
    · rw [if_neg hlow, if_pos (by omega), Nat.sub_sub, hcell]
  · rw [if_neg hin, if_neg (by omega)]

theorem PlainRegion.storeLeft (m : Nat → Byte) (v : Word) (x : Nat) :
    storedLeft m lo base a v x =
      if wordCell lo base a ≤ x ∧ x ≤ cellOf lo base a then byteOf v (x + 3 - cellOf lo base a)
      else m x := by
  have hcell := hram.low_le ha
  rw [storedLeft, write_bytes]
  by_cases hin : wordCell lo base a ≤ x ∧ x < wordCell lo base a + 4
  · have hj : x - wordCell lo base a < 4 := by omega
    rw [if_pos hin, byteOf_swlMerge _ _ _ hj, byteOf_leWord _ _ hj, Nat.add_sub_cancel' hin.1]
    by_cases hlow : x - wordCell lo base a ≤ a.toNat % 4
    · rw [if_pos hlow, if_pos (by omega)]
      congr 1
      omega
    · rw [if_neg hlow, if_neg (by omega)]
  · rw [if_neg hin, if_neg (by omega)]

end

/-! ## 3. Three implementations -/

inductive Op where
  | lwl
  | lwr
  | swl
  | swr
  deriving DecidableEq, Repr

def Op.code : Op → BitVec 6
  | .lwl => 0x22#6
  | .lwr => 0x26#6
  | .swl => 0x2A#6
  | .swr => 0x2E#6

inductive Impl where
  | strict
  | helpers
  | interp
  deriving DecidableEq, Repr

section
variable {M : Type} (R : Runtime M) (d : Dialect) (pc : Word)

/-- The instruction `raw` at `pc`, as text of the strict translator, as a statement of the code generator
with its helpers, and in the interpreter -/
def Impl.exec : Impl → Word → Cpu M → Option (Cpu M)
  | .strict, raw, c =>
    match Strict.translate pc raw with
    | .ok r => (run R d r.cCode c).map fun p => p.2.cpu
    | .error _ => none
  | .helpers, raw, c => (run R d (CodeGen.translateInstruction {} raw pc) c).map fun p => p.2.cpu
  | .interp, raw, c => (execPlain R raw c).toOption

/-- `raw` is the instruction `op` for the register `rt`, and from `c` it accesses `a`. -/
structure At (op : Op) (rt : Reg) (raw : Word) (c : Cpu M) (a : Word) : Prop where
  op : opField raw = op.code
  rt : rtField raw = rt
  addr : effAddr raw c = a

def Op.apply (op : Op) (rt : Reg) (a : Word) (c : Cpu M) : Cpu M :=
  match op with
  | .lwl =>
    let (word, c) := c.readWord R (a &&& ~~~3)
    c.writeBack rt (lwlMerge a word (c.gpr rt))
  | .lwr =>
    let (word, c) := c.readWord R (a &&& ~~~3)
    c.writeBack rt (lwrMerge a word (c.gpr rt))
  | .swl => interpSwl R c a (c.gpr rt)
  | .swr => interpSwr R c a (c.gpr rt)

/-- What the strict text does where the sum of its address is defined. Its stores keep the wrong bytes of
the memory word: `SWL` the low ones and `SWR` the high ones. -/
def Op.applyStrict (op : Op) (rt : Reg) (a : Word) (c : Cpu M) : Cpu M :=
  match op with
  | .swl => interpStoreMerge R Strict.swlStored c a (c.gpr rt)
  | .swr => interpStoreMerge R Strict.swrStored c a (c.gpr rt)
  | op => op.apply R rt a c

variable {R d pc} {op : Op} {rt : Reg} {raw a : Word} {c : Cpu M} (h : At op rt raw c a)
include h

theorem exec_interp : Impl.interp.exec R d pc raw c = some (op.apply R rt a c) := by
  obtain ⟨hop, rfl, rfl⟩ := h
  cases op <;> simp only [Op.code] at hop <;> simp only [Impl.exec, execPlain, hop] <;> rfl

theorem translate_eq : Strict.translate pc raw = .ok { cCode := match op with
    | .lwl => Strict.lwl raw
    | .lwr => Strict.lwr raw
    | .swl => Strict.swl raw
    | .swr => Strict.swr raw } := by
  have hne : raw ≠ 0#32 := by
    rintro rfl
    have := h.op
    cases op <;> exact absurd this (by decide)
  have hop := h.op
  unfold Strict.translate
  rw [if_neg hne]
  cases op <;> simp only [Op.code] at hop <;> rw [hop] <;> rfl

theorem exec_strict (h0 : c.gpr 0#5 = 0#32)
    (had : d.AddDefined (c.gpr (rsField raw)) (simm16Field raw)) :
    Impl.strict.exec R d pc raw c = some (op.applyStrict R rt a c) := by
  simp only [Impl.exec, translate_eq h]
  obtain ⟨hop, rfl, rfl⟩ := h
  cases op with
  | lwl => rw [run_lwl had h0]; rfl
  | lwr => rw [run_lwr had h0]; rfl
  | swl => rw [run_swl had]; rfl
  | swr => rw [run_swr had]; rfl

theorem exec_strict_undefined (had : ¬ d.AddDefined (c.gpr (rsField raw)) (simm16Field raw)) :
    Impl.strict.exec R d pc raw c = none := by
  simp only [Impl.exec, translate_eq h]
  cases op <;> simp [run, Strict.lwl, Strict.lwr, Strict.swl, Strict.swr, storeMerge,
    addrExpr_undefined had]

end

/-- The bits of the memory word that only one of the two masks keeps are all set in the bytes stored. -/
def Op.Keeps (op : Op) (a word v : Word) : Prop :=
  let up := ((a &&& 3#32) * 8#32).toNat
  let down := ((3#32 - (a &&& 3#32)) * 8#32).toNat
  match op with
  | .swl => word &&& (0x00FFFFFF#32 >>> up ^^^ 0xFFFFFF00#32 <<< up) &&& ~~~(v >>> down) = 0#32
  | .swr => word &&& (0xFFFFFF00#32 <<< down ^^^ 0x00FFFFFF#32 >>> down) &&& ~~~(v <<< up) = 0#32
  | _ => True

theorem keeps_swr_of_aligned {a : Word} (ha : a.toNat % 4 = 0) (word v : Word) :
    Op.swr.Keeps a word v := by
  have hmask : 0xFFFFFF00#32 <<< (8 * 3) ^^^ 0x00FFFFFF#32 >>> (8 * 3) = 0#32 := by decide
  simp only [Op.Keeps, toNat_down, ha, Nat.sub_zero, hmask, and_zero, zero_and]

theorem keeps_swl_of_last {a : Word} (ha : a.toNat % 4 = 3) (word v : Word) :
    Op.swl.Keeps a word v := by
  have hmask : 0x00FFFFFF#32 >>> (8 * 3) ^^^ 0xFFFFFF00#32 <<< (8 * 3) = 0#32 := by decide
  simp only [Op.Keeps, toNat_up, ha, hmask, and_zero, zero_and]

section
variable {R : Runtime (Nat → Byte)} {lo hi base : Nat} (hram : PlainRegion R lo hi base) {d : Dialect}
  {pc : Word} {op : Op} {rt : Reg} {raw a : Word} {c : Cpu (Nat → Byte)} (h0 : c.gpr 0#5 = 0#32)
  (ha : lo ≤ a.toNat) (ha' : a.toNat < hi)
include hram ha ha'

theorem apply_lwl (rt : Reg) : Op.lwl.apply R rt a c =
    c.writeBack rt (lwlMerge a (leWord c.mem (wordCell lo base a)) (c.gpr rt)) := by
  simp only [Op.apply, Cpu.readWord, hram.readWord ha ha']

theorem apply_lwr (rt : Reg) : Op.lwr.apply R rt a c =
    c.writeBack rt (lwrMerge a (leWord c.mem (wordCell lo base a)) (c.gpr rt)) := by
  simp only [Op.apply, Cpu.readWord, hram.readWord ha ha']

theorem apply_swl (rt : Reg) :
    Op.swl.apply R rt a c = { c with mem := storedLeft c.mem lo base a (c.gpr rt) } :=
  hram.storeMerge ha ha' ..

theorem apply_swr (rt : Reg) :
    Op.swr.apply R rt a c = { c with mem := storedRight c.mem lo base a (c.gpr rt) } :=
  hram.storeMerge ha ha' ..

theorem applyStrict_eq_iff (rt : Reg) : op.applyStrict R rt a c = op.apply R rt a c ↔
    op.Keeps a (leWord c.mem (wordCell lo base a)) (c.gpr rt) := by
  -- a stored word is the memory it leaves
  have hmem : ∀ w w' : Word,
      ({ c with mem := Ram.write c.mem (wordCell lo base a) (Width.word.bytes w) } : Cpu _) =
        { c with mem := Ram.write c.mem (wordCell lo base a) (Width.word.bytes w') } ↔ w = w' := by
    intro w w'
    rw [mk.injEq, write_bytes_inj]
    simp
  cases op with
  | lwl => exact iff_of_true rfl trivial
  | lwr => exact iff_of_true rfl trivial
  | swl =>
    rw [apply_swl hram ha ha', Op.applyStrict, hram.storeMerge ha ha', storedLeft, hmem, swlStored,
      swlMerge_eq, and_or_eq_iff]
    rfl
  | swr =>
    rw [apply_swr hram ha ha', Op.applyStrict, hram.storeMerge ha ha', storedRight, hmem, swrStored,
      swrMerge_eq, and_or_eq_iff]
    rfl

variable (h : At op rt raw c a)
include h0 h

theorem exec_helpers : Impl.helpers.exec R d pc raw c = some (op.apply R rt a c) := by
  obtain ⟨hop, rfl, rfl⟩ := h
  -- a load to `$zero` is not made; in RAM it would do nothing
  have hload : ∀ (f : RtFn) (v : Word),
      f.call R [.u32 (effAddr raw c), .u32 (c.gpr (rtField raw))] c.start = some (.u32 v, c.start) →
      (run R d (loadMerge {} raw f) c).map (fun p => p.2.cpu) =
        some (c.writeBack (rtField raw) v) := by
    intro f v hcall
    rw [writeBack_eq h0]
    by_cases hrt : rtField raw = 0#5
    · rw [run_loadMerge_zero rfl hrt, if_pos hrt]
      rfl
    · rw [run_loadMerge hrt hcall, if_neg hrt]
      rfl
  cases op with
  | lwl =>
    rw [apply_lwl hram ha ha']
    simp only [Impl.exec, translateInstruction, show opField raw = 0x22#6 from hop]
    refine hload .psxLwl _ ?_
    simp only [RtFn.call, CVal.to32_mk, start_cpu, psxLwl, Cpu.readWord, hram.readWord ha ha']
    rfl
  | lwr =>
    rw [apply_lwr hram ha ha']
    simp only [Impl.exec, translateInstruction, show opField raw = 0x26#6 from hop]
    refine hload .psxLwr _ ?_
    simp only [RtFn.call, CVal.to32_mk, start_cpu, psxLwr, Cpu.readWord, hram.readWord ha ha']
    rfl
  | swl =>
    simp only [Impl.exec, translateInstruction, show opField raw = 0x2A#6 from hop]
    exact (congrArg (Option.map _) (run_storeTo rfl rfl)).trans rfl
  | swr =>
    simp only [Impl.exec, translateInstruction, show opField raw = 0x2E#6 from hop]
    exact (congrArg (Option.map _) (run_storeTo rfl rfl)).trans rfl

theorem exec_eq (had : d.AddDefined (c.gpr (rsField raw)) (simm16Field raw))
    (hkeep : op.Keeps a (leWord c.mem (wordCell lo base a)) (c.gpr rt)) (I : Impl) :
    I.exec R d pc raw c = some (op.apply R rt a c) := by
  cases I with
  | strict => rw [exec_strict h h0 had, (applyStrict_eq_iff hram ha ha' rt).mpr hkeep]
  | helpers => exact exec_helpers hram h0 ha ha' h
  | interp => exact exec_interp h

theorem keeps_of_exec_eq
    (heq : Impl.strict.exec R d pc raw c = Impl.interp.exec R d pc raw c) :
    d.AddDefined (c.gpr (rsField raw)) (simm16Field raw) ∧
      op.Keeps a (leWord c.mem (wordCell lo base a)) (c.gpr rt) := by
  rw [exec_interp h] at heq
  by_cases had : d.AddDefined (c.gpr (rsField raw)) (simm16Field raw)
  · rw [exec_strict h h0 had, some.injEq] at heq
    exact ⟨had, (applyStrict_eq_iff hram ha ha' rt).mp heq⟩
  · rw [exec_strict_undefined h had] at heq
    cases heq

end

/-! ## 4. Pairs -/

/-- From `c`, the instructions `x` and `y` lead to `c'`, whichever comes first. -/
def Impl.EitherOrder {M : Type} (R : Runtime M) (d : Dialect) (pc : Word) (I : Impl) (x y : Word)
    (c c' : Cpu M) : Prop :=
  (I.exec R d pc x c).bind (I.exec R d pc y) = some c' ∧
    (I.exec R d pc y c).bind (I.exec R d pc x) = some c'

section
variable {R : Runtime (Nat → Byte)} {lo hi base : Nat} (hram : PlainRegion R lo hi base) {a : Word}
  (ha : lo ≤ a.toNat) (ha' : a.toNat + 3 < hi)
include hram ha'

theorem PlainRegion.toNat_add_three : (a + 3#32).toNat = a.toNat + 3 := by
  have := hram.hi_le
  rw [toNat_add, show (3#32).toNat = 3 from rfl]
  omega

include ha

theorem PlainRegion.pair_cells : cellOf lo base (a + 3#32) = cellOf lo base a + 3 ∧
    (a.toNat % 4 = 0 ∧ (a + 3#32).toNat % 4 = 3 ∧
        wordCell lo base a = cellOf lo base a ∧ wordCell lo base (a + 3#32) = cellOf lo base a ∨
      a.toNat % 4 ≠ 0 ∧ (a + 3#32).toNat % 4 = a.toNat % 4 - 1 ∧
        wordCell lo base a + a.toNat % 4 = cellOf lo base a ∧
        wordCell lo base (a + 3#32) = wordCell lo base a + 4) := by
  have hnat := hram.toNat_add_three ha'
  have hlow := hram.low_le ha
  have hlow' := hram.low_le (a := a + 3#32) (by omega)
  simp only [cellOf, hnat] at hlow hlow' ⊢
  omega

/-- The two loads of a pair, in either order, are the unaligned load. -/
theorem load_merges (m : Nat → Byte) (v : Word) :
    let right := lwrMerge a (leWord m (wordCell lo base a))
    let left := lwlMerge (a + 3#32) (leWord m (wordCell lo base (a + 3#32)))
    left (right v) = leWord m (cellOf lo base a) ∧ right (left v) = leWord m (cellOf lo base a) := by
  obtain ⟨-, hcells⟩ := hram.pair_cells ha ha'
  constructor
  all_goals
    refine eq_of_byteOf fun j hj => ?_
    simp only [byteOf_lwlMerge _ _ _ hj, byteOf_lwrMerge _ _ _ hj, byteOf_leWord _ _ hj]
    split_ifs <;> first | omega | (rw [byteOf_leWord _ _ (by omega)]; congr 1; omega)

/-- The two stores of a pair, in either order, are the unaligned store. -/
theorem store_merges (m : Nat → Byte) (v : Word) :
    let stored := Ram.write m (cellOf lo base a) (Width.word.bytes v)
    storedLeft (storedRight m lo base a v) lo base (a + 3#32) v = stored ∧
      storedRight (storedLeft m lo base (a + 3#32) v) lo base a v = stored := by
  intro stored
  have hnat := hram.toNat_add_three ha'
  obtain ⟨hcell, hcells⟩ := hram.pair_cells ha ha'
  constructor
  all_goals
    funext x
    simp only [hram.storeLeft (a := a + 3#32) (by omega), hram.storeRight ha, stored, write_bytes]
    split_ifs <;> first | rfl | omega | (congr 1; omega)

end

section
variable {R : Runtime (Nat → Byte)} {lo hi base : Nat} (hram : PlainRegion R lo hi base) {d : Dialect}
  {pc : Word} {c : Cpu (Nat → Byte)} (h0 : c.gpr 0#5 = 0#32) {a : Word} (ha : lo ≤ a.toNat)
  (ha' : a.toNat + 3 < hi) {rt : Reg}
include hram h0 ha ha'

omit hram ha ha' in
theorem At.gpr_base {op : Op} {x : Word} (hx : ∀ v, At op rt x (c.writeBack rt v) a) (v : Word) :
    (c.writeBack rt v).gpr (rsField x) = c.gpr (rsField x) := by
  have hsame := (hx v).addr.trans (hx (c.gpr rt)).addr.symm
  rw [writeBack_self h0, effAddr, effAddr] at hsame
  exact add_right_cancel hsame

theorem load_pair {r l : Word} (hr : ∀ v, At .lwr rt r (c.writeBack rt v) a)
    (hl : ∀ v, At .lwl rt l (c.writeBack rt v) (a + 3#32))
    (hadr : d.AddDefined (c.gpr (rsField r)) (simm16Field r))
    (hadl : d.AddDefined (c.gpr (rsField l)) (simm16Field l)) (I : Impl) :
    I.EitherOrder R d pc r l c (c.writeBack rt (leWord c.mem (cellOf lo base a))) := by
  have hnat := hram.toNat_add_three ha'
  have hexecr : ∀ v, I.exec R d pc r (c.writeBack rt v) = some (c.writeBack rt
      (lwrMerge a (leWord c.mem (wordCell lo base a)) ((c.writeBack rt v).gpr rt))) := by
    intro v
    rw [exec_eq hram (writeBack_gpr_zero ..) ha (by omega) (hr v) (by rwa [At.gpr_base h0 hr])
      trivial, apply_lwr hram ha (by omega), writeBack_writeBack]
    rfl
  have hexecl : ∀ v, I.exec R d pc l (c.writeBack rt v) = some (c.writeBack rt
      (lwlMerge (a + 3#32) (leWord c.mem (wordCell lo base (a + 3#32)))
        ((c.writeBack rt v).gpr rt))) := by
    intro v
    rw [exec_eq hram (writeBack_gpr_zero ..) (by omega) (by omega) (hl v)
      (by rwa [At.gpr_base h0 hl]) trivial, apply_lwl hram (by omega) (by omega), writeBack_writeBack]
    rfl
  have hr0 := hexecr (c.gpr rt)
  have hl0 := hexecl (c.gpr rt)
  rw [writeBack_self h0 rt] at hr0 hl0
  constructor
  · rw [hr0, bind_some, hexecl]
    by_cases hrt : rt = 0#5
    · rw [hrt, writeBack_zero h0, writeBack_zero h0]
    · rw [writeBack_gpr_self c hrt, (load_merges hram ha ha' ..).1]
  · rw [hl0, bind_some, hexecr]
    by_cases hrt : rt = 0#5
    · rw [hrt, writeBack_zero h0, writeBack_zero h0]
    · rw [writeBack_gpr_self c hrt, (load_merges hram ha ha' ..).2]

theorem store_pair {r l : Word} (hr : At .swr rt r c a) (hl : At .swl rt l c (a + 3#32))
    (hadr : d.AddDefined (c.gpr (rsField r)) (simm16Field r))
    (hadl : d.AddDefined (c.gpr (rsField l)) (simm16Field l))
    (hkeepr : Op.swr.Keeps a (leWord c.mem (wordCell lo base a)) (c.gpr rt))
    (hkeepl : Op.swl.Keeps (a + 3#32) (leWord c.mem (wordCell lo base (a + 3#32))) (c.gpr rt))
    (I : Impl) :
    I.EitherOrder R d pc r l c
      { c with mem := Ram.write c.mem (cellOf lo base a) (Width.word.bytes (c.gpr rt)) } := by
  have hnat := hram.toNat_add_three ha'
  have hexecr : ∀ m, Op.swr.Keeps a (leWord m (wordCell lo base a)) (c.gpr rt) →
      I.exec R d pc r { c with mem := m } =
        some { c with mem := storedRight m lo base a (c.gpr rt) } := by
    intro m hkeep
    rw [exec_eq (c := { c with mem := m }) hram h0 ha (by omega) ⟨hr.op, hr.rt, hr.addr⟩ hadr hkeep,
      apply_swr hram ha (by omega)]
  have hexecl : ∀ m, Op.swl.Keeps (a + 3#32) (leWord m (wordCell lo base (a + 3#32))) (c.gpr rt) →
      I.exec R d pc l { c with mem := m } =
        some { c with mem := storedLeft m lo base (a + 3#32) (c.gpr rt) } := by
    intro m hkeep
    rw [exec_eq (c := { c with mem := m }) hram h0 (by omega) (by omega) ⟨hl.op, hl.rt, hl.addr⟩ hadl
      hkeep, apply_swl hram (by omega) (by omega)]
  -- the second store finds its word as it was, or overwrites it as a whole
  have hkeepl' : Op.swl.Keeps (a + 3#32)
      (leWord (storedRight c.mem lo base a (c.gpr rt)) (wordCell lo base (a + 3#32))) (c.gpr rt) := by
    obtain ⟨-, ⟨-, h3, -, -⟩ | ⟨-, -, -, hw⟩⟩ := hram.pair_cells ha ha'
    · exact keeps_swl_of_last h3 _ _
    · rwa [storedRight, leWord_write _ (by omega)]
  have hkeepr' : Op.swr.Keeps a
      (leWord (storedLeft c.mem lo base (a + 3#32) (c.gpr rt)) (wordCell lo base a)) (c.gpr rt) := by
    obtain ⟨-, ⟨h0, -, -, -⟩ | ⟨-, -, -, hw⟩⟩ := hram.pair_cells ha ha'
    · exact keeps_swr_of_aligned h0 _ _
    · rwa [storedLeft, leWord_write _ (by omega)]
  constructor
  · rw [hexecr c.mem hkeepr, bind_some, hexecl _ hkeepl', (store_merges hram ha ha' ..).1]
  · rw [hexecl c.mem hkeepl, bind_some, hexecr _ hkeepr', (store_merges hram ha ha' ..).2]

end

/-- For an address `a` whose four bytes are in plain RAM, a register and the instructions of the two pairs
at `a` and `a + 3`: in every implementation and order, `LWR` and `LWL` load the little-endian word at `a`,
`SWR` and `SWL` store the register there and change nothing else, and the implementations agree on each
instruction; if and only if the sums of the addresses are defined and the mask of the strict translator
makes no difference. -/
theorem unaligned_pairs_iff (R : Runtime (Nat → Byte)) (lo hi base : Nat)
    (hram : PlainRegion R lo hi base) (d : Dialect) (pc : Word) (c : Cpu (Nat → Byte))
    (h0 : c.gpr 0#5 = 0#32) (a : Word) (ha : lo ≤ a.toNat) (ha' : a.toNat + 3 < hi) (rt : Reg)
    (lr ll sr sl : Word)
    (hlr : ∀ v, At .lwr rt lr (c.writeBack rt v) a)
    (hll : ∀ v, At .lwl rt ll (c.writeBack rt v) (a + 3#32))
    (hsr : At .swr rt sr c a) (hsl : At .swl rt sl c (a + 3#32)) :
    ((∀ I : Impl, I.EitherOrder R d pc lr ll c
        (c.writeBack rt (leWord c.mem (cellOf lo base a)))) ∧
      (∀ I : Impl, I.EitherOrder R d pc sr sl c
        { c with mem := Ram.write c.mem (cellOf lo base a) (Width.word.bytes (c.gpr rt)) }) ∧
      ∀ I J : Impl, ∀ x ∈ [lr, ll, sr, sl], I.exec R d pc x c = J.exec R d pc x c) ↔
    (∀ x ∈ [lr, ll, sr, sl], d.AddDefined (c.gpr (rsField x)) (simm16Field x)) ∧
      Op.swr.Keeps a (leWord c.mem (wordCell lo base a)) (c.gpr rt) ∧
      Op.swl.Keeps (a + 3#32) (leWord c.mem (wordCell lo base (a + 3#32))) (c.gpr rt) := by
  have hnat := hram.toNat_add_three ha'
  have hlr0 : At .lwr rt lr c a := writeBack_self h0 rt ▸ hlr (c.gpr rt)
  have hll0 : At .lwl rt ll c (a + 3#32) := writeBack_self h0 rt ▸ hll (c.gpr rt)
  have hlo : lo ≤ (a + 3#32).toNat := by omega
  have hhi : (a + 3#32).toNat < hi := by omega
  have hhi' : a.toNat < hi := by omega
  simp only [List.forall_mem_cons, List.not_mem_nil, false_implies, implies_true, and_true]
  constructor
  · rintro ⟨-, -, hsame⟩
    obtain ⟨h1, h2, h3, h4⟩ := hsame .strict .interp
    obtain ⟨had1, -⟩ := keeps_of_exec_eq hram h0 ha hhi' hlr0 h1
    obtain ⟨had2, -⟩ := keeps_of_exec_eq hram h0 hlo hhi hll0 h2
    obtain ⟨had3, hkeep3⟩ := keeps_of_exec_eq hram h0 ha hhi' hsr h3
    obtain ⟨had4, hkeep4⟩ := keeps_of_exec_eq hram h0 hlo hhi hsl h4
    exact ⟨⟨had1, had2, had3, had4⟩, hkeep3, hkeep4⟩
  · rintro ⟨⟨had1, had2, had3, had4⟩, hkeep3, hkeep4⟩
    have h1 : ∀ I : Impl, I.exec R d pc _ c = _ := exec_eq hram h0 ha hhi' hlr0 had1 trivial
    have h2 : ∀ I : Impl, I.exec R d pc _ c = _ := exec_eq hram h0 hlo hhi hll0 had2 trivial
    have h3 : ∀ I : Impl, I.exec R d pc _ c = _ := exec_eq hram h0 ha hhi' hsr had3 hkeep3
    have h4 : ∀ I : Impl, I.exec R d pc _ c = _ := exec_eq hram h0 hlo hhi hsl had4 hkeep4
    exact ⟨load_pair hram h0 ha ha' hlr hll had1 had2,
      store_pair hram h0 ha ha' hsr hsl had3 had4 hkeep3 hkeep4, fun I J =>
        ⟨(h1 I).trans (h1 J).symm, (h2 I).trans (h2 J).symm, (h3 I).trans (h3 J).symm,
          (h4 I).trans (h4 J).symm⟩⟩

def ramOnly : Runtime (Nat → Byte) where
  readByte a m := (m (physAddr a), m)
  readHalf a m := ((m (physAddr a)).setWidth 16 ||| (m (physAddr a + 1)).setWidth 16 <<< 8, m)
  readWord a m := (leWord m (physAddr a), m)
  writeByte a v m := Ram.write m (physAddr a) (Width.byte.bytes (v.setWidth 32))
  writeHalf a v m := Ram.write m (physAddr a) (Width.half.bytes (v.setWidth 32))
  writeWord a v m := Ram.write m (physAddr a) (Width.word.bytes v)
  gteExecute _ g := g
  psxSyscall _ c := (0, c)
  psxBreak _ _ c := c

theorem plainRegion_ramOnly : PlainRegion ramOnly 0x80000000 0x80200000 0 := by
  have hphys : ∀ w : Word, 0x80000000 ≤ w.toNat → w.toNat < 0x80200000 →
      physAddr w = 0 + (w.toNat - 0x80000000) := by
    intro w hlo hhi
    simp only [physAddr, ramSize]
    rw [if_pos (by omega)]
    omega
  refine ⟨by decide, by decide, by decide, ?_, ?_⟩
  · intro w m _ hlo hhi
    rw [← hphys w hlo hhi]
    rfl
  · intro w v m _ hlo hhi
    rw [← hphys w hlo hhi]
    rfl

/-- `$1` points to the second byte of RAM; the first byte is `b` and all else is zero. -/
def secondByte (b : Byte) : Cpu (Nat → Byte) where
  gpr r := if r = 1#5 then 0x80000001#32 else 0#32
  hi := 0
  lo := 0
  pc := 0
  cop0 _ := 0
  gte := ⟨fun _ => 0, fun _ => 0⟩
  mem x := if x = 0 then b else 0#8

/-- `$1` points to the second byte of two words that are neither zero nor the same, and `$2` is all ones. -/
def betweenWords : Cpu (Nat → Byte) :=
  { secondByte 0#8 with
    gpr := fun r => if r = 1#5 then 0x80000001#32 else if r = 2#5 then 0xFFFFFFFF#32 else 0#32
    mem := fun x => [0x00#8, 0x22#8, 0x33#8, 0x44#8, 0x55#8, 0x66#8, 0x77#8].getD x 0#8 }

/-- `lwr $2, 0($1)` and `lwl $2, 3($1)` load the word between them, `swr` and `swl` store to it. -/
theorem unaligned_pairs_between : leWord betweenWords.mem 1 = 0x55443322#32 ∧
    (∀ I : Impl, I.EitherOrder ramOnly .iso 0 0x98220000#32 0x88220003#32 betweenWords
      (betweenWords.writeBack 2#5 (leWord betweenWords.mem 1))) ∧
    ∀ I : Impl, I.EitherOrder ramOnly .iso 0 0xB8220000#32 0xA8220003#32 betweenWords
      { betweenWords with mem := Ram.write betweenWords.mem 1 (Width.word.bytes 0xFFFFFFFF#32) } := by
  have hpairs := (unaligned_pairs_iff ramOnly 0x80000000 0x80200000 0 plainRegion_ramOnly .iso 0
    betweenWords rfl 0x80000001#32 (by decide) (by decide) 2#5 0x98220000#32 0x88220003#32
    0xB8220000#32 0xA8220003#32 (fun _ => ⟨rfl, rfl, rfl⟩) (fun _ => ⟨rfl, rfl, rfl⟩) ⟨rfl, rfl, rfl⟩
    ⟨rfl, rfl, rfl⟩).mpr ⟨by simp [Dialect.AddDefined]; decide, rfl, rfl⟩
  exact ⟨by decide, hpairs.1, hpairs.2.1⟩

/-- `swr $2, 0($1)` and `swl $2, 3($1)` at the second byte, in the text of the strict translator, clear
the first byte. -/
theorem strict_pair_clears_neighbour :
    (secondByte 0xFF#8).mem 0 = 0xFF#8 ∧
    (∃ c', (Impl.strict.exec ramOnly .iso 0 0xB8220000#32 (secondByte 0xFF#8)).bind
        (Impl.strict.exec ramOnly .iso 0 0xA8220003#32) = some c' ∧ c'.mem 0 = 0#8) ∧
    ∃ c', (Impl.strict.exec ramOnly .wrapv 0 0xB8220000#32 (secondByte 0xFF#8)).bind
        (Impl.strict.exec ramOnly .wrapv 0 0xA8220003#32) = some c' ∧ c'.mem 0 = 0#8 :=
  ⟨rfl, ⟨_, rfl, rfl⟩, _, rfl, rfl⟩

end PsxRecomp.Unaligned
