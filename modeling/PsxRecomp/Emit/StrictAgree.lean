import PsxRecomp.Emit.Strict

/-!
# `Emit/StrictAgree.lean` — what the strict templates compute, and where `exec_one` differs

Every template of `Emit/Strict.lean` is run symbolically, one equation each, and then compared with the
interpreter instruction by instruction.
-/

set_option autoImplicit false

namespace PsxRecomp.Strict

open CLang Cpu Words

variable {M : Type}

/-! ## 1. Running the templates -/

variable {addr mask : Word} {c' : Cpu M} {x y : CVal} {conv : CE → CE} {f : RtFn}

section
variable {R : Runtime M} {d : Dialect} {c : Cpu M}

theorem run_emitGprWrite (h0 : c.gpr 0#5 = 0#32) {r : Reg} {e : CE} {v : CVal}
    (he : e.eval d (host R) [] c.start = some (v, c.start)) :
    run R d (emitGprWrite r e) c = some (.next, (c.writeBack r v.to32).start) := by
  by_cases hr : r = 0#5
  · simp [run, emitGprWrite, hr, writeBack_eq h0]
  · simp [run, emitGprWrite, hr, writeBack_eq h0, he]
    rfl

theorem setLess_eval {a b : CE} (ha : a.eval d (host R) [] c.start = some (x, c.start))
    (hb : b.eval d (host R) [] c.start = some (y, c.start)) :
    (setLess a b).eval d (host R) [] c.start =
      some (.u32 (flag (CmpOp.lt.apply x y).truthy), c.start) := by
  cases h : (CmpOp.lt.apply x y).truthy <;> simp [setLess, cu32, ha, hb, h, flag]

theorem run_addTrapping (h0 : c.gpr 0#5 = 0#32) {r : Reg} {a b : CE} {x y : Word}
    (ha : ∀ env, a.eval d (host R) env c.start = some (.i32 x, c.start))
    (hb : ∀ env, b.eval d (host R) env c.start = some (.i32 y, c.start)) :
    run R d (addTrapping r a b) c =
      if x.saddOverflow y then some (.ret, ⟨c, some .arithOverflow⟩)
      else some (.next, (c.writeBack r (x + y)).start) := by
  rw [← add64_out_of_range x y, writeBack_eq h0]
  simp only [run, addTrapping, CStmt.seqs, CStmt.exec, CExpr.eval]
  simp [ha, hb, saddOverflow_signExtend64]
  cases (x.signExtend 64 + y.signExtend 64).slt 18446744071562067968#64 <;>
    cases (2147483647#64).slt (x.signExtend 64 + y.signExtend 64) <;>
    by_cases hr : r = 0#5 <;> simp [hr, cu32, ci32, setWidth_add64, CState.void, Cpu.start]

theorem run_multu (rs rt : Reg) :
    run R d (multu rs rt) c = some (.next, { c with
      lo := ((c.gpr rs).setWidth 64 * (c.gpr rt).setWidth 64).setWidth 32
      hi := (((c.gpr rs).setWidth 64 * (c.gpr rt).setWidth 64) >>> 32).setWidth 32 }.start) := by
  have hs : shiftCount 64 (.i32 32#32) = some 32 := by decide
  have hall (x : Word) : x &&& 4294967295#32 = x := BitVec.and_allOnes
  simp [run, multu, cu32, hs, hall]
  rfl

theorem run_divu (rs rt : Reg) :
    run R d (divu rs rt) c = some (.next, { c with
      hi := (divuHiLo (c.gpr rs) (c.gpr rt)).1
      lo := (divuHiLo (c.gpr rs) (c.gpr rt)).2 }.start) := by
  by_cases hz : c.gpr rt = 0#32
  · simp [run, divu, divuHiLo, hz]
    rfl
  · simp [run, divu, divuHiLo, hz, sub_udiv_mul]
    rfl

theorem run_div (rs rt : Reg) :
    run R d (div rs rt) c = some (.next, { c with
      hi := (divHiLo (c.gpr rs) (c.gpr rt)).1
      lo := (divHiLo (c.gpr rs) (c.gpr rt)).2 }.start) := by
  have hm : BitVec.intMin 32 = 0x80000000#32 := by decide
  by_cases hz : c.gpr rt = 0#32
  · have hs : (0#32).sle (c.gpr rs) = !(c.gpr rs).slt 0#32 := BitVec.sle_eq_not_slt
    cases hn : (c.gpr rs).slt 0#32 <;> simp [run, div, divHiLo, hz, cu32, ci32, hs, hn] <;> rfl
  by_cases hmin : c.gpr rs = 0x80000000#32 ∧ c.gpr rt = 0xFFFFFFFF#32
  · simp [run, div, divHiLo, cu32, ci32, hmin]
    rfl
  have h : ¬ (c.gpr rs = BitVec.intMin 32 ∧ c.gpr rt = -1#32) := by rwa [hm]
  by_cases hn : c.gpr rs = 0x80000000#32
  · have hd : c.gpr rt ≠ 0xFFFFFFFF#32 := fun hd => hmin ⟨hn, hd⟩
    have hmul := smulOverflow_sdiv h
    have hsub := ssubOverflow_sdiv_mul h
    have hrem := sub_sdiv_mul h
    rw [hn] at hmul hsub hrem
    simp [run, div, divHiLo, hz, cu32, ci32, hd, hn, hm, hmul, hsub, hrem]
    rfl
  · simp [run, div, divHiLo, hz, cu32, ci32, hn, smulOverflow_sdiv h, hm,
      ssubOverflow_sdiv_mul h, sub_sdiv_mul h]
    rfl

theorem addrExpr_eval (rs : Reg) (simm : Word) (env : Env) (s : CState M) :
    (addrExpr rs simm).eval d (host R) env s =
      (d.checked ((s.cpu.gpr rs).saddOverflow simm) (s.cpu.gpr rs + simm)).map
        fun a => (.u32 a, s) := by
  simp [addrExpr, cu32, ci32]
  rfl

section
variable {raw : Word} (had : d.AddDefined (c.gpr (rsField raw)) (simm16Field raw))
include had

theorem addrExpr_run (env : Env) :
    (addrExpr (rsField raw) (simm16Field raw)).eval d (host R) env c.start =
      some (.u32 (effAddr raw c), c.start) := by
  simp [addrExpr_eval, had.checked, effAddr]

theorem run_loadByte (h0 : c.gpr 0#5 = 0#32) {f : BitVec 8 → Word}
    (hconv : ∀ e env s v s', CExpr.eval d (host R) e env s = some (.u8 v, s') →
      CExpr.eval d (host R) (conv e) env s = some (.u32 (f v), s')) :
    run R d (loadByte conv raw) c =
      some (.next, ((c.readByte R (effAddr raw c)).2.writeBack (rtField raw)
        (f (c.readByte R (effAddr raw c)).1)).start) := by
  have hread (env) : CExpr.eval d (host R)
      (.call1 .psxCycLoadByte (addrExpr (rsField raw) (simm16Field raw))) env c.start =
        some (.u8 (c.readByte R (effAddr raw c)).1, (c.readByte R (effAddr raw c)).2.start) := by
    simp [addrExpr_run had]
    rfl
  rw [writeBack_eq (by exact h0)]
  by_cases hr : rtField raw = 0#5
  · simp only [run, loadByte, hr, if_true, CStmt.exec, hread]
    rfl
  · simp only [run, loadByte, hr, if_false, CStmt.exec, hconv _ _ _ _ _ (hread _)]
    rfl

theorem run_loadAligned (h0 : c'.gpr 0#5 = 0#32)
    (hread : f.call R [.u32 (effAddr raw c)] c.start = some (x, c'.start))
    (hconv : (conv (.call1 f (.var "psx_addr"))).eval d (host R)
      [("psx_addr", .u32 (effAddr raw c))] c.start = some (y, c'.start)) :
    run R d (loadAligned mask f conv addr raw) c =
      if effAddr raw c &&& mask = 0#32 then some (.next, (c'.writeBack (rtField raw) y.to32).start)
      else some (.ret, ⟨c, some (.unalignedAccess (effAddr raw c) addr)⟩) := by
  rw [writeBack_eq h0]
  by_cases hm : effAddr raw c &&& mask = 0#32
  · by_cases hr : rtField raw = 0#5
    · simp [run, loadAligned, alignCheck, addrExpr_run had, hm, hr, hread, -RtFn.call]
    · simp [run, loadAligned, alignCheck, addrExpr_run had, hm, hr, hconv, -RtFn.call]
      rfl
  · simp [run, loadAligned, alignCheck, addrExpr_run had, hm]
    rfl

theorem run_storeAligned {value : CE}
    (hval : value.eval d (host R) [("psx_addr", .u32 (effAddr raw c))] c.start = some (x, c.start))
    (hwrite : f.call R [.u32 (effAddr raw c), x] c.start = some (y, c'.start)) :
    run R d (storeAligned mask f value addr raw) c =
      if effAddr raw c &&& mask = 0#32 then some (.next, c'.start)
      else some (.ret, ⟨c, some (.unalignedAccess (effAddr raw c) addr)⟩) := by
  by_cases hm : effAddr raw c &&& mask = 0#32
  · simp [run, storeAligned, alignCheck, addrExpr_run had, hm, hval, hwrite, -RtFn.call]
  · simp [run, storeAligned, alignCheck, addrExpr_run had, hm]
    rfl

theorem run_sb :
    run R d (sb raw) c =
      some (.next, (c.writeByte R (effAddr raw c) ((c.gpr (rtField raw)).setWidth 8)).start) := by
  have hall (x : BitVec 8) : x &&& 255#8 = x := BitVec.and_allOnes
  simp [run, sb, addrExpr_run had, hall]
  rfl

theorem run_lwl (h0 : c.gpr 0#5 = 0#32) :
    run R d (lwl raw) c =
      some (.next, ((c.readWord R (effAddr raw c &&& ~~~3)).2.writeBack (rtField raw)
        (lwlMerge (effAddr raw c) (c.readWord R (effAddr raw c &&& ~~~3)).1
          (c.gpr (rtField raw)))).start) := by
  rw [writeBack_eq (by exact h0), lwlMerge_eq]
  by_cases hr : rtField raw = 0#5
  · simp [run, lwl, addrExpr_run had, addrAligned, hr]
    rfl
  · simp [run, lwl, addrExpr_run had, addrAligned, addrLow, hr,
      shiftCount_bytes (sub_and_three_le _)]
    rfl

theorem run_lwr (h0 : c.gpr 0#5 = 0#32) :
    run R d (lwr raw) c =
      some (.next, ((c.readWord R (effAddr raw c &&& ~~~3)).2.writeBack (rtField raw)
        (lwrMerge (effAddr raw c) (c.readWord R (effAddr raw c &&& ~~~3)).1
          (c.gpr (rtField raw)))).start) := by
  rw [writeBack_eq (by exact h0), lwrMerge_eq]
  by_cases hr : rtField raw = 0#5
  · simp [run, lwr, addrExpr_run had, addrAligned, hr]
    rfl
  · simp [run, lwr, addrExpr_run had, addrAligned, addrLow, hr,
      shiftCount_bytes (and_three_le _)]
    rfl

/-- The word `SWL` stores: the kept bytes are the ones it should have replaced. -/
def swlStored (addr word v : Word) : Word :=
  word &&& 0x00FFFFFF#32 >>> ((addr &&& 3#32) * 8#32).toNat |||
    v >>> ((3#32 - (addr &&& 3#32)) * 8#32).toNat

/-- The word `SWR` stores. -/
def swrStored (addr word v : Word) : Word :=
  word &&& 0xFFFFFF00#32 <<< ((3#32 - (addr &&& 3#32)) * 8#32).toNat |||
    v <<< ((addr &&& 3#32) * 8#32).toNat

theorem run_swl : run R d (swl raw) c =
    some (.next, (interpStoreMerge R swlStored c (effAddr raw c) (c.gpr (rtField raw))).start) := by
  simp [run, swl, storeMerge, shiftFromTop, shiftFromBottom, addrExpr_run had, addrAligned, addrLow,
    interpStoreMerge, swlStored, shiftCount_bytes (and_three_le _),
    shiftCount_bytes (sub_and_three_le _)]
  rfl

theorem run_swr : run R d (swr raw) c =
    some (.next, (interpStoreMerge R swrStored c (effAddr raw c) (c.gpr (rtField raw))).start) := by
  simp [run, swr, storeMerge, shiftFromTop, shiftFromBottom, addrExpr_run had, addrAligned, addrLow,
    interpStoreMerge, swrStored, shiftCount_bytes (and_three_le _),
    shiftCount_bytes (sub_and_three_le _)]
  rfl

end

theorem addrExpr_undefined {raw : Word}
    (h : ¬ d.AddDefined (c.gpr (rsField raw)) (simm16Field raw)) (env : Env) :
    (addrExpr (rsField raw) (simm16Field raw)).eval d (host R) env c.start = none := by
  simp [addrExpr_eval, Dialect.checked_eq_none h]

end

/-! ## 2. What is compared, and where it holds -/

section
variable (R : Runtime M) (d : Dialect)

/-- `SWL` is not damaged by the wrong keep mask: the memory does not tell the word that is stored from the one
that should be. -/
def SwlParity (addr v : Word) (m : M) : Prop :=
  let r := R.readWord (addr &&& ~~~3) m
  SameStore R (addr &&& ~~~3) (swlStored addr r.1 v) (swlMerge addr r.1 v) r.2

/-- The same for `SWR`. -/
def SwrParity (addr v : Word) (m : M) : Prop :=
  let r := R.readWord (addr &&& ~~~3) m
  SameStore R (addr &&& ~~~3) (swrStored addr r.1 v) (swrMerge addr r.1 v) r.2

/-- A raw write to a GTE register leaves what the accessor leaves. -/
def Cop2Parity (raw : Word) (c : Cpu M) : Prop :=
  let rt := rtField raw
  let rd := rdField raw
  if rsField raw = 0x00#5 then rt = 0#5 ∨ helperReadData rd ∨ c.gte.DataCanonical rd
  else if rsField raw = 0x02#5 then rt = 0#5 ∨ helperCtrl rd ∨ c.gte.CtrlCanonical rd
  else if rsField raw = 0x04#5 then helperWriteData rd ∨ (c.gte.setData rd (c.gpr rt)).Canonical
  else if rsField raw = 0x06#5 then helperCtrl rd ∨ (c.gte.setCtrl rd (c.gpr rt)).Canonical
  else True

/-- Where the emitted C and `exec_one` agree. -/
def Parity (raw : Word) (c : Cpu M) : Prop :=
  let rt := rtField raw
  let addr := effAddr raw c
  let addOk := d.AddDefined (c.gpr (rsField raw)) (simm16Field raw)
  match opField raw with
  | 0x09 => rt = 0#5 ∨ addOk
  | 0x10 => raw = 0x42000010#32 → c.cop0 12 &&& 0x30#32 = 0#32
  | 0x12 => Cop2Parity raw c
  | 0x20 | 0x21 | 0x22 | 0x23 | 0x24 | 0x25 | 0x26 | 0x28 | 0x29 | 0x2B => addOk
  | 0x2A => addOk ∧ SwlParity R addr (c.gpr rt) c.mem
  | 0x2E => addOk ∧ SwrParity R addr (c.gpr rt) c.mem
  | 0x32 =>
    (simm16Field raw = 0#32 ∨ addOk) ∧
      (helperWriteData rt ∨ (c.gte.setData rt (R.readWord addr c.mem).1).Canonical)
  | 0x3A =>
    (simm16Field raw = 0#32 ∨ addOk) ∧
      (helperReadData rt ∨ c.gte.DataCanonical rt ∨
        SameStore R addr (c.gte.data rt) (c.gte.seenData rt) c.mem)
  | _ => True

end

/-! ## 3. Opcode by opcode -/

variable {r : TranslateResult} {P : Prop} {s : CS}

section
variable {R : Runtime M} {d : Dialect} {c : Cpu M} {raw : Word}

theorem interpStoreMerge_eq_iff (f g : Word → Word → Word → Word) (addr v : Word) :
    interpStoreMerge R f c addr v = interpStoreMerge R g c addr v ↔
      SameStore R (addr &&& ~~~3) (f addr (R.readWord (addr &&& ~~~3) c.mem).1 v)
        (g addr (R.readWord (addr &&& ~~~3) c.mem).1 v) (R.readWord (addr &&& ~~~3) c.mem).2 := by
  simp [interpStoreMerge, SameStore, readWord, writeWord]

theorem special_agrees (h0 : c.gpr 0#5 = 0#32)
    (h : translateSpecial addr raw = .ok r) (hop : opField raw = 0x00#6)
    (hnb : isDelaySlotTransfer raw = false) (htr : isTrap raw = false)
    (ht : NoTrap R d r.cCode c) : AgreesPlain R d r.cCode raw c := by
  have hx : execPlain R raw c = execSpecial raw c := by simp [execPlain, hop]
  simp only [isDelaySlotTransfer, isTrap, hop] at hnb htr
  unfold AgreesPlain
  rw [hx]
  unfold translateSpecial at h
  unfold execSpecial
  generalize functField raw = fn at *
  split at h
  -- the rows that write one register
  all_goals try cases h
  all_goals try exact ⟨_, _, run_emitGprWrite h0
    (by simp [shiftReg, cu32, ci32, shiftCount_field, shiftCount_and31]; rfl), by simp⟩
  case h_26 | h_27 =>
    exact ⟨_, _, run_emitGprWrite h0 (setLess_eval (by simp [ci32]; rfl) (by simp [ci32]; rfl)),
      by simp⟩
  case h_7 => simp at hnb
  case h_8 => simp at hnb
  case h_9 => simp at htr
  case h_10 => simp at htr
  case h_12 => exact ⟨_, _, rfl, rfl⟩
  case h_14 => exact ⟨_, _, rfl, rfl⟩
  case h_15 => exact ⟨_, _, run_multu _ _, rfl⟩
  case h_16 => exact ⟨_, _, run_div _ _, rfl⟩
  case h_17 => exact ⟨_, _, run_divu _ _, rfl⟩
  case h_18 =>
    have hadd := run_addTrapping (R := R) (d := d) h0 (r := rdField raw)
      (x := c.gpr (rsField raw)) (y := c.gpr (rtField raw)) (a := ci32 (cgpr (rsField raw)))
      (b := ci32 (cgpr (rtField raw))) (fun _ => by simp [ci32]) (fun _ => by simp [ci32])
    split at hadd
    · cases ht _ _ hadd
    · exact ⟨_, _, hadd, rfl⟩

theorem rfe_sr_iff (sr : Word) :
    sr &&& 0xFFFFFFC0#32 ||| (sr >>> 2 &&& 0x0F#32) =
        sr &&& 0xFFFFFFF0#32 ||| (sr >>> 2 &&& 0x0F#32) ↔
      sr &&& 0x30#32 = 0#32 := by
  have hx : 0xFFFFFFC0#32 ^^^ 0xFFFFFFF0#32 = 0x30#32 := by decide
  rw [and_or_eq_iff, hx, and_not_of_disjoint _ _ (by decide)]

theorem cop0_agrees_iff (h0 : c.gpr 0#5 = 0#32)
    (h : translateCop0 raw = .ok r) (hop : opField raw = 0x10#6) :
    AgreesPlain R d r.cCode raw c ↔ (raw = 0x42000010#32 → c.cop0 12 &&& 0x30#32 = 0#32) := by
  have hx : execPlain R raw c = execCop0 raw c := by simp [execPlain, hop]
  simp only [translateCop0, plain] at h
  split_ifs at h with hrfe hmf hmt
  · cases h
    have hrun : run R d rfe.cCode c = some (.ret, (c.setCop0 12
        (c.cop0 12 &&& 0xFFFFFFC0#32 ||| (c.cop0 12 >>> 2 &&& 0x0F#32))).start) := by
      rfl
    have hex : execCop0 raw c = .ok (c.setCop0 12
        (c.cop0 12 &&& 0xFFFFFFF0#32 ||| (c.cop0 12 >>> 2 &&& 0x0F#32))) := by
      subst hrfe
      rfl
    rw [agreesPlain_iff hrun, hx, hex, ← rfe_sr_iff, start_cpu, Except.ok.injEq,
      setCop0_inj]
    exact ⟨fun h _ => h.symm, fun h => (h hrfe).symm⟩
  · cases h
    rw [agreesPlain_iff (run_emitGprWrite h0 (by simp; rfl))]
    simp [hx, execCop0, hmf, hrfe]
  · cases h
    have hrun : run R d (.store (.cop0 (rdField raw)) (cgpr (rtField raw))) c =
        some (.next, (c.setCop0 (rdField raw) (c.gpr (rtField raw))).start) := rfl
    rw [agreesPlain_iff hrun]
    simp [hx, execCop0, hrfe, hmt]

theorem cop2_agrees_iff (h0 : c.gpr 0#5 = 0#32)
    (h : translateCop2 raw = .ok r) (hop : opField raw = 0x12#6) :
    AgreesPlain R d r.cCode raw c ↔ Cop2Parity raw c := by
  have hx : execPlain R raw c = execCop2 R raw c := by simp [execPlain, hop]
  simp only [translateCop2, plain] at h
  unfold Cop2Parity
  split_ifs at h with hmf hcf hmt hct hcmd <;> cases h
  · rw [agreesPlain_iff (run_emitGprWrite h0 (gteDataExpr_eval _ _ _))]
    simp [hx, execCop2, hmf, writeBack_inj h0, readData_eq_iff]
  · rw [agreesPlain_iff (run_emitGprWrite h0 (gteCtrlExpr_eval _ _ _))]
    simp [hx, execCop2, hcf, writeBack_inj h0, readCtrl_eq_iff]
  · rw [agreesPlain_iff (run_gteDataWrite c rfl)]
    simp [hx, execCop2, hmt, writeData_eq_iff]
  · rw [agreesPlain_iff (run_gteCtrlWrite c rfl)]
    simp [hx, execCop2, hct, writeCtrl_eq_iff]
  · have hrun : run R d (.expr (.call1 .gteExecute (cint (gteCmd raw)))) c =
        some (.next, { c with gte := R.gteExecute (gteCmd raw) c.gte }.start) := rfl
    rw [agreesPlain_iff hrun]
    simp [hx, execCop2, hmf, hcf, hmt, hct, hcmd]

theorem cop2Addr_eval (h : simm16Field raw = 0#32 ∨
      d.AddDefined (c.gpr (rsField raw)) (simm16Field raw)) :
    (cop2Addr (rsField raw) (simm16Field raw)).eval d (host R) [] c.start =
      some (.u32 (effAddr raw c), c.start) := by
  by_cases hz : simm16Field raw = 0#32
  · simp [cop2Addr, hz, effAddr]
  · simpa [cop2Addr, hz] using addrExpr_run (h.resolve_left hz) []

theorem cop2Addr_undefined (h : ¬ (simm16Field raw = 0#32 ∨
      d.AddDefined (c.gpr (rsField raw)) (simm16Field raw))) :
    (cop2Addr (rsField raw) (simm16Field raw)).eval d (host R) [] c.start = none := by
  rw [not_or] at h
  simpa [cop2Addr, h.1] using addrExpr_undefined h.2 []

theorem agreesPlain_iff_and {a b : Cpu M} (hx : execPlain R raw c = .ok b)
    (hrun : P → run R d s c = some (.next, a.start)) (hundef : ¬ P → run R d s c = none) :
    AgreesPlain R d s raw c ↔ P ∧ a = b := by
  by_cases hP : P
  · simp [agreesPlain_iff (hrun hP), hx, hP, eq_comm]
  · exact iff_of_false (not_agreesPlain (hundef hP)) fun h => hP h.1

theorem agreesPlain_iff_defined (hx : execPlain R raw c = .ok c')
    (hrun : P → run R d s c = some (.next, c'.start)) (hundef : ¬ P → run R d s c = none) :
    AgreesPlain R d s raw c ↔ P :=
  (agreesPlain_iff_and hx hrun hundef).trans (and_iff_left rfl)

theorem lwc2_agrees_iff (hop : opField raw = 0x32#6) :
    AgreesPlain R d (lwc2 raw) raw c ↔ Parity R d raw c := by
  simp only [Parity, hop]
  refine (agreesPlain_iff_and (by simp only [execPlain, hop]; rfl)
    (fun had => run_gteDataWrite (v := (c.readWord R (effAddr raw c)).1) (c.readWord R (effAddr raw c)).2
      (by simp [cop2Addr_eval had]; rfl)) fun hno => ?_).trans (and_congr_right fun _ => ?_)
  · cases h : helperWriteData (rtField raw) <;>
      simp [run, gteDataWrite, h, cop2Addr_undefined hno]
  · rw [← writeData_eq_iff]
    simp [readWord, eq_comm]

theorem swc2_agrees_iff (hop : opField raw = 0x3A#6) :
    AgreesPlain R d (swc2 raw) raw c ↔ Parity R d raw c := by
  simp only [Parity, hop]
  refine (agreesPlain_iff_and (by simp only [execPlain, hop]; rfl)
    (a := c.writeWord R (effAddr raw c) (movedData c.gte (rtField raw))) (fun had => ?_)
    fun hno => ?_).trans (and_congr_right fun _ => ?_)
  · simp [run, swc2, cop2Addr_eval had, gteDataExpr_eval]
    rfl
  · simp [run, swc2, cop2Addr_undefined hno]
  · rw [← sameStore_moved_iff]
    simp [writeWord, SameStore]

theorem run_of_noTrap [Decidable P] {f f' : Flow Word} {s₁ s₂ : CState M}
    (ht : NoTrap R d s c) (hs₂ : s₂.trap ≠ none)
    (hrun : run R d s c = if P then some (f, s₁) else some (f', s₂)) :
    run R d s c = some (f, s₁) := by
  split_ifs at hrun with hP
  · exact hrun
  · exact absurd (ht _ _ hrun) hs₂

theorem parity_of_op
    (h : opField raw ∈ [0x00#6, 0x08#6, 0x0A#6, 0x0B#6, 0x0C#6, 0x0D#6, 0x0E#6, 0x0F#6]) :
    Parity R d raw c := by
  simp only [List.mem_cons, List.not_mem_nil, or_false] at h
  unfold Parity
  rcases h with h | h | h | h | h | h | h | h <;> rw [h] <;> trivial

theorem plain_agrees_iff (h0 : c.gpr 0#5 = 0#32) (h : translate addr raw = .ok r)
    (hnb : isDelaySlotTransfer raw = false) (htr : isTrap raw = false)
    (ht : NoTrap R d r.cCode c) : AgreesPlain R d r.cCode raw c ↔ Parity R d raw c := by
  unfold translate at h
  split_ifs at h with hz
  · subst hz
    cases h
    refine iff_of_true ⟨.next, c.start, rfl, ?_⟩ (parity_of_op (by decide))
    have hsll : execPlain R 0#32 c = .ok (c.writeBack 0#5 (c.gpr 0#5 <<< 0)) := rfl
    rw [hsll, writeBack_eq h0]
    rfl
  split at h <;> rename_i hop
  case h_1 => exact iff_of_true (special_agrees h0 h hop hnb htr ht) (parity_of_op (by simp [hop]))
  case h_2 | h_3 | h_4 | h_5 | h_6 | h_7 | h_8 => simp [isDelaySlotTransfer, hop] at hnb
  case h_29 =>
    rw [cop0_agrees_iff h0 h hop]
    simp [Parity, hop]
  case h_30 =>
    rw [cop2_agrees_iff h0 h hop]
    simp [Parity, hop]
  all_goals cases h
  case' h_10 | h_17 | h_18 | h_19 | h_20 | h_21 | h_22 | h_23 | h_24 | h_25 | h_26 | h_27 | h_28 =>
    simp [Parity, hop]
  case h_9 =>
    have hadd := run_addTrapping (R := R) (d := d) h0 (r := rtField raw)
      (x := c.gpr (rsField raw)) (y := simm16Field raw) (a := ci32 (cgpr (rsField raw)))
      (b := cint (simm16Field raw)) (fun _ => by simp [ci32]) (fun _ => by simp)
    split at hadd
    · cases ht _ _ hadd
    · exact iff_of_true ⟨_, _, hadd, by simp [execPlain, hop]⟩ (parity_of_op (by simp [hop]))
  case h_10 =>
    refine agreesPlain_iff_defined (by simp only [execPlain, hop]; rfl) (fun had => ?_) fun hno => ?_
    · by_cases hr : rtField raw = 0#5
      · simp [run, emitGprWrite, hr, writeBack_eq h0]
      · exact run_emitGprWrite h0 (addrExpr_run (had.resolve_left hr) [])
    · rw [not_or] at hno
      simp [run, emitGprWrite, hno.1, addrExpr_undefined hno.2]
  case h_11 | h_12 =>
    refine iff_of_true ⟨_, _, run_emitGprWrite h0
      (setLess_eval (by simp [ci32]; rfl) (by simp; rfl)), ?_⟩ (parity_of_op (by simp [hop]))
    simp [execPlain, hop]
  case h_13 | h_14 | h_15 | h_16 =>
    refine iff_of_true ⟨_, _, run_emitGprWrite h0 (by simp; rfl), ?_⟩ (parity_of_op (by simp [hop]))
    simp [execPlain, hop]
  case h_17 | h_22 =>
    refine agreesPlain_iff_defined (by simp only [execPlain, hop]; rfl)
      (fun had => run_loadByte had h0 ?_) fun hno => ?_
    · intro e env s v s' he
      simp [cu32, ci32, he]
    · by_cases hr : rtField raw = 0#5 <;>
        simp [run, loadByte, hr, cu32, ci32, addrExpr_undefined hno]
  case h_18 =>
    exact agreesPlain_iff_defined (by simp only [execPlain, hop]; rfl)
      (fun had => run_lwl had h0) fun hno => by simp [run, lwl, addrExpr_undefined hno]
  case h_19 =>
    exact agreesPlain_iff_defined (by simp only [execPlain, hop]; rfl)
      (fun had => run_lwr had h0) fun hno => by simp [run, lwr, addrExpr_undefined hno]
  case h_20 | h_21 | h_23 =>
    refine agreesPlain_iff_defined (by simp only [execPlain, hop]; rfl)
      (fun had => run_of_noTrap ht (by simp) (run_loadAligned had ?_ rfl rfl))
      fun hno => by simp [run, loadAligned, addrExpr_undefined hno]
    exact h0
  case h_24 =>
    exact agreesPlain_iff_defined (by simp only [execPlain, hop])
      (fun had => run_sb had) fun hno => by simp [run, sb, addrExpr_undefined hno]
  case h_25 | h_27 =>
    have hall (x : BitVec 16) : x &&& 65535#16 = x := BitVec.and_allOnes
    refine agreesPlain_iff_defined ?_
      (fun had => run_of_noTrap ht (by simp) (run_storeAligned had (by simp [hall]; rfl) rfl))
      fun hno => by simp [run, storeAligned, addrExpr_undefined hno]
    simp only [execPlain, hop]
    rfl
  case h_26 =>
    rw [SwlParity, ← interpStoreMerge_eq_iff]
    exact agreesPlain_iff_and (by simp only [execPlain, hop]; rfl) (fun had => run_swl had)
      fun hno => by simp [run, swl, storeMerge, addrExpr_undefined hno]
  case h_28 =>
    rw [SwrParity, ← interpStoreMerge_eq_iff]
    exact agreesPlain_iff_and (by simp only [execPlain, hop]; rfl) (fun had => run_swr had)
      fun hno => by simp [run, swr, storeMerge, addrExpr_undefined hno]
  case h_31 => exact lwc2_agrees_iff hop
  case h_32 => exact swc2_agrees_iff hop

end

/-! ## 4. The comparison -/

/-- On every supported word that is no transfer or trap, from every state, the emitted C does what
`exec_one` does if and only if `Parity` holds. They differ on four kinds of words:

* `RFE` clears `SR` bits 4 and 5, which the interpreter keeps;
* `SWL` and `SWR` keep the wrong bytes of the memory word (the two keep masks are swapped);
* moves that touch `gte_data` / `gte_ctrl` directly skip the normalisation of the accessors;
* address sums and `ADDIU` are signed additions, undefined in ISO C when they overflow. -/
theorem strict_agrees_iff (R : Runtime M) (d : Dialect) (fetch : Word → Word) (addr : Word)
    (c : Cpu M) (r : TranslateResult) (h0 : c.gpr 0#5 = 0#32)
    (hr : translate addr (fetch addr) = .ok r)
    (hnb : isDelaySlotTransfer (fetch addr) = false) (htr : isTrap (fetch addr) = false)
    (ht : NoTrap R d r.cCode c) :
    Agrees R d r.cCode fetch addr c ↔ Parity R d (fetch addr) c := by
  rw [← plain_agrees_iff h0 hr hnb htr ht]
  unfold Agrees AgreesPlain
  rw [execOne_of_not_transfer c hnb, execNonBranch_of_not_trap c htr]
  cases execPlain R (fetch addr) c <;> simp

/-- `addu $3, $1, $2`, where `$3` becomes 12. -/
theorem strict_agrees_addu :
    Agrees oneWord .iso (emitGprWrite 3 (.arith .add (cgpr 1) (cgpr 2))) (fun _ => 0x00221821#32) 0
      fiveSeven :=
  (strict_agrees_iff oneWord .iso (fun _ => 0x00221821#32) 0 fiveSeven
    { cCode := emitGprWrite 3 (.arith .add (cgpr 1) (cgpr 2)) } rfl rfl rfl rfl
    (fun _ _ h => by cases h; rfl)).mpr trivial

/-- `swl $2, 0($1)` with `$1` and `$2` zero clears the top byte of the word; it should keep it. -/
theorem strict_swl_disagrees :
    ∃ r, translate 0 0xA8220000#32 = .ok r ∧ ∀ d, NoTrap oneWord d r.cCode (zeroCpu 0xFF000000) ∧
      ¬ Agrees oneWord d r.cCode (fun _ => 0xA8220000#32) 0 (zeroCpu 0xFF000000) := by
  refine ⟨_, rfl, fun d => ⟨fun f s' h => ?_, ?_⟩⟩
  · cases d <;> cases h <;> rfl
  · rintro ⟨f, s', hrun, hex⟩
    have hc : execOne oneWord (fun _ => 0xA8220000#32) 0 (zeroCpu 0xFF000000) =
        .next (zeroCpu 0xFF000000) := rfl
    have hm : s'.cpu.mem = 0#32 := by cases d <;> cases hrun <;> rfl
    rw [hc, Exec.next.injEq] at hex
    rw [← hex] at hm
    exact absurd hm (by decide)

end PsxRecomp.Strict
