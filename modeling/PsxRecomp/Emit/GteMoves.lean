import PsxRecomp.Emit.Host

/-!
# `Emit/GteMoves.lean` — how both emitters move COP2 registers

`strict_translator.cpp` and `code_generator.cpp` carry the same three lists of registers that go
through `gte_read_data`, `gte_write_data` and the control accessors; every other register is moved
straight from or to the `gte_data` / `gte_ctrl` words of `CPUState`. The interpreter always uses the
accessors. `readData_eq_iff` and its three siblings say when that makes no difference.
-/

set_option autoImplicit false

namespace PsxRecomp

open CLang

/-! ## 1. The templates -/

/-- The data registers that are read through the helper. -/
def helperReadData (r : Reg) : Bool :=
  (8#5 ≤ r && r ≤ 11#5) || r = 15#5 || r = 28#5 || r = 29#5 || r = 31#5

/-- The data registers that are written through the helper. -/
def helperWriteData (r : Reg) : Bool :=
  r = 7#5 || (8#5 ≤ r && r ≤ 11#5) || r = 14#5 || r = 15#5 || r = 28#5 || r = 30#5

/-- The control registers that are moved through the helpers, either way. -/
def helperCtrl (r : Reg) : Bool :=
  r = 26#5 || r = 27#5 || r = 29#5 || r = 30#5 || r = 31#5

def gteDataExpr (r : Reg) : CE :=
  if helperReadData r then .call0 (.gteReadData r) else .obj (.gteData r)

def gteCtrlExpr (r : Reg) : CE :=
  if helperCtrl r then .call0 (.gteReadCtrl r) else .obj (.gteCtrl r)

def gteDataWrite (r : Reg) (e : CE) : CS :=
  if helperWriteData r then .expr (.call1 (.gteWriteData r) e) else .store (.gteData r) e

def gteCtrlWrite (r : Reg) (e : CE) : CS :=
  if helperCtrl r then .expr (.call1 (.gteWriteCtrl r) e) else .store (.gteCtrl r) e

/-! ## 2. What they compute -/

def movedData (g : Gte) (r : Reg) : Word :=
  if helperReadData r then gteReadData g r else g.data r

def movedCtrl (g : Gte) (r : Reg) : Word :=
  if helperCtrl r then gteReadCtrl g r else g.ctrl r

def storedData (g : Gte) (r : Reg) (v : Word) : Gte :=
  if helperWriteData r then gteWriteData g r v else g.setData r v

def storedCtrl (g : Gte) (r : Reg) (v : Word) : Gte :=
  if helperCtrl r then gteWriteCtrl g r v else g.setCtrl r v

section
variable {M : Type} {R : Runtime M} {d : Dialect} {c : Cpu M}

theorem gteDataExpr_eval (r : Reg) (env : Env) (s : CState M) :
    (gteDataExpr r).eval d (host R) env s = some (.u32 (movedData s.cpu.gte r), s) := by
  cases h : helperReadData r <;> simp [gteDataExpr, movedData, h]

theorem gteCtrlExpr_eval (r : Reg) (env : Env) (s : CState M) :
    (gteCtrlExpr r).eval d (host R) env s = some (.u32 (movedCtrl s.cpu.gte r), s) := by
  cases h : helperCtrl r <;> simp [gteCtrlExpr, movedCtrl, h]

theorem run_gteDataWrite {r : Reg} {e : CE} {v : Word} (c' : Cpu M)
    (he : e.eval d (host R) [] c.start = some (.u32 v, c'.start)) :
    run R d (gteDataWrite r e) c =
      some (.next, { c' with gte := storedData c'.gte r v }.start) := by
  cases h : helperWriteData r <;> simp [run, gteDataWrite, storedData, h, he] <;> rfl

theorem run_gteCtrlWrite {r : Reg} {e : CE} {v : Word} (c' : Cpu M)
    (he : e.eval d (host R) [] c.start = some (.u32 v, c'.start)) :
    run R d (gteCtrlWrite r e) c =
      some (.next, { c' with gte := storedCtrl c'.gte r v }.start) := by
  cases h : helperCtrl r <;> simp [run, gteCtrlWrite, storedCtrl, h, he] <;> rfl

end

/-! ## 3. When the accessors would have done the same -/

section
variable (g : Gte) (r : Reg) (v : Word)

theorem readData_eq_iff :
    gteReadData g r = movedData g r ↔ helperReadData r ∨ g.DataCanonical r := by
  cases h : helperReadData r <;> simp [movedData, h, gteReadData_eq, ← seenData_eq_iff]

theorem readCtrl_eq_iff :
    gteReadCtrl g r = movedCtrl g r ↔ helperCtrl r ∨ g.CtrlCanonical r := by
  cases h : helperCtrl r <;> simp [movedCtrl, h, gteReadCtrl_eq, ← seenCtrl_eq_iff]

theorem writeData_eq_iff :
    gteWriteData g r v = storedData g r v ↔ helperWriteData r ∨ (g.setData r v).Canonical := by
  cases h : helperWriteData r with
  | true => simp [storedData, h]
  | false =>
    have h15 : r ≠ 15#5 := by rintro rfl; cases h
    have h28 : r ≠ 28#5 := by rintro rfl; cases h
    simp [storedData, h, gteWriteData_eq g v h15 h28, canon_eq_self_iff]

theorem writeCtrl_eq_iff :
    gteWriteCtrl g r v = storedCtrl g r v ↔ helperCtrl r ∨ (g.setCtrl r v).Canonical := by
  cases h : helperCtrl r with
  | true => simp [storedCtrl, h]
  | false =>
    have h31 : r ≠ 31#5 := by rintro rfl; cases h
    simp [storedCtrl, h, gteWriteCtrl_eq g v h31, canon_eq_self_iff]

end

theorem sameStore_moved_iff {M : Type} {R : Runtime M} {g : Gte} {r : Reg} {addr : Word} {m : M} :
    SameStore R addr (movedData g r) (gteReadData g r) m ↔ helperReadData r ∨ g.DataCanonical r ∨
      SameStore R addr (g.data r) (g.seenData r) m := by
  have hmoved := readData_eq_iff g r
  cases hh : helperReadData r with
  | true =>
    simp only [hh, true_or, iff_true] at hmoved
    simp [SameStore, hmoved]
  | false =>
    simp only [hh, Bool.false_eq_true, false_or] at hmoved ⊢
    have hraw : movedData g r = g.data r := by simp [movedData, hh]
    rw [hraw] at hmoved ⊢
    rw [gteReadData_eq] at hmoved ⊢
    rw [or_iff_right_of_imp]
    intro hcan
    rw [SameStore, hmoved.mpr hcan]

end PsxRecomp
