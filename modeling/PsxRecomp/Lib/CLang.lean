import Mathlib.Data.BitVec
import Mathlib.Logic.Function.Basic
import PsxRecomp.Lib.Linear

/-!
# `Lib/CLang.lean` — a small C: integers, expressions, statements

The fragment of C that code generators write: fixed-width integer expressions with the usual
arithmetic conversions, block-local variables, word-sized objects of a host structure, calls to
host functions, `if`, `goto` and `return`. The host (which objects and functions there are, and
what they do) is a parameter, so nothing here is about one program.

Undefined behaviour is `none`. Division by zero, `INT_MIN / -1` and an out-of-range shift count are
undefined in every dialect; what a *signed* `+`, `-`, `*` or `<<` does when the result does not fit
is the one thing compilers are asked to differ on (`-fwrapv`), so it is a parameter too
(`Dialect`). Right shifts of negative numbers are arithmetic, and narrowing conversions keep the
low bits: both are implementation-defined in C and the same in every compiler for two's-complement
hosts.

Arguments are evaluated left to right. The language has no assignment expression, so the order is
visible only between two calls of one expression.
-/

set_option autoImplicit false

namespace CLang

open BitVec

/-! ## 1. Integer values -/

inductive CTy where
  | i8 | u8 | i16 | u16 | i32 | u32 | i64 | u64
  deriving DecidableEq, Repr

inductive CVal where
  | i8 (v : BitVec 8)
  | u8 (v : BitVec 8)
  | i16 (v : BitVec 16)
  | u16 (v : BitVec 16)
  | i32 (v : BitVec 32)
  | u32 (v : BitVec 32)
  | i64 (v : BitVec 64)
  | u64 (v : BitVec 64)
  deriving DecidableEq, Repr

namespace CVal

def to8 : CVal → BitVec 8
  | i8 v | u8 v => v
  | i16 v | u16 v => v.setWidth 8
  | i32 v | u32 v => v.setWidth 8
  | i64 v | u64 v => v.setWidth 8

def to16 : CVal → BitVec 16
  | i8 v => v.signExtend 16
  | u8 v => v.setWidth 16
  | i16 v | u16 v => v
  | i32 v | u32 v => v.setWidth 16
  | i64 v | u64 v => v.setWidth 16

def to32 : CVal → BitVec 32
  | i8 v => v.signExtend 32
  | u8 v => v.setWidth 32
  | i16 v => v.signExtend 32
  | u16 v => v.setWidth 32
  | i32 v | u32 v => v
  | i64 v | u64 v => v.setWidth 32

def to64 : CVal → BitVec 64
  | i8 v => v.signExtend 64
  | u8 v => v.setWidth 64
  | i16 v => v.signExtend 64
  | u16 v => v.setWidth 64
  | i32 v => v.signExtend 64
  | u32 v => v.setWidth 64
  | i64 v | u64 v => v

def convert : CTy → CVal → CVal
  | .i8, v => i8 v.to8
  | .u8, v => u8 v.to8
  | .i16, v => i16 v.to16
  | .u16, v => u16 v.to16
  | .i32, v => i32 v.to32
  | .u32, v => u32 v.to32
  | .i64, v => i64 v.to64
  | .u64, v => u64 v.to64

def promoted : CVal → CTy
  | u32 _ => .u32
  | i64 _ => .i64
  | u64 _ => .u64
  | _ => .i32

def toInt : CVal → Int
  | i8 v => v.toInt
  | u8 v => v.toNat
  | i16 v => v.toInt
  | u16 v => v.toNat
  | i32 v => v.toInt
  | u32 v => v.toNat
  | i64 v => v.toInt
  | u64 v => v.toNat

/-- What `if` and `?:` test. -/
def truthy : CVal → Bool
  | i8 v | u8 v => v != 0
  | i16 v | u16 v => v != 0
  | i32 v | u32 v => v != 0
  | i64 v | u64 v => v != 0

/-- The `int` a comparison yields. -/
def ofBool (b : Bool) : CVal := i32 (if b then 1 else 0)

@[simp] theorem truthy_ofBool (b : Bool) : (ofBool b).truthy = b := by
  cases b <;> rfl

@[simp] theorem to32_ofBool (b : Bool) : (ofBool b).to32 = if b then 1 else 0 := rfl

@[simp] theorem to8_mk : (∀ v, (u8 v).to8 = v) ∧ (∀ v, (u32 v).to8 = v.setWidth 8) :=
  ⟨fun _ => rfl, fun _ => rfl⟩

@[simp] theorem to16_mk : (∀ v, (u16 v).to16 = v) ∧ (∀ v, (u32 v).to16 = v.setWidth 16) :=
  ⟨fun _ => rfl, fun _ => rfl⟩

@[simp] theorem to32_mk : (∀ v, (i8 v).to32 = v.signExtend 32) ∧
    (∀ v, (u8 v).to32 = v.setWidth 32) ∧ (∀ v, (i16 v).to32 = v.signExtend 32) ∧
    (∀ v, (u16 v).to32 = v.setWidth 32) ∧ (∀ v, (i32 v).to32 = v) ∧ (∀ v, (u32 v).to32 = v) ∧
    (∀ v, (i64 v).to32 = v.setWidth 32) ∧ (∀ v, (u64 v).to32 = v.setWidth 32) := by
  simp [to32]

@[simp] theorem to64_mk : (∀ v, (i32 v).to64 = v.signExtend 64) ∧
    (∀ v, (u32 v).to64 = v.setWidth 64) ∧ (∀ v, (i64 v).to64 = v) ∧ (∀ v, (u64 v).to64 = v) := by
  simp [to64]

@[simp] theorem truthy_mk : (∀ v, (i32 v).truthy = (v != 0#32)) ∧
    (∀ v, (u32 v).truthy = (v != 0#32)) :=
  ⟨fun _ => rfl, fun _ => rfl⟩

attribute [simp] convert

end CVal

/-- The usual arithmetic conversions, on promoted types. -/
def CTy.common : CTy → CTy → CTy
  | .u64, _ | _, .u64 => .u64
  | .i64, _ | _, .i64 => .i64
  | .u32, _ | _, .u32 => .u32
  | _, _ => .i32

/-! ## 2. Operators -/

inductive Dialect where
  /-- the language standard: undefined -/
  | iso
  /-- `-fwrapv`: two's-complement wrap-around -/
  | wrapv
  deriving DecidableEq, Repr

/-- Operators applied after converting both operands to their common type. -/
inductive ArithOp where
  | add | sub | mul | div | mod | band | bor | bxor
  deriving DecidableEq, Repr

inductive CmpOp where
  | eq | ne | lt | le | gt | ge
  deriving DecidableEq, Repr

section
variable {w : Nat}

/-- `x` unless the dialect is strict about the overflow `o`. -/
def Dialect.checked (d : Dialect) (o : Bool) (x : BitVec w) : Option (BitVec w) :=
  match d with
  | .iso => if o then none else some x
  | .wrapv => some x

def ArithOp.signed (d : Dialect) (op : ArithOp) (x y : BitVec w) : Option (BitVec w) :=
  match op with
  | .add => d.checked (x.saddOverflow y) (x + y)
  | .sub => d.checked (x.ssubOverflow y) (x - y)
  | .mul => d.checked (x.smulOverflow y) (x * y)
  | .div => if y = 0 ∨ (x = BitVec.intMin w ∧ y = -1) then none else some (x.sdiv y)
  | .mod => if y = 0 ∨ (x = BitVec.intMin w ∧ y = -1) then none else some (x.srem y)
  | .band => some (x &&& y)
  | .bor => some (x ||| y)
  | .bxor => some (x ^^^ y)

def ArithOp.unsigned (op : ArithOp) (x y : BitVec w) : Option (BitVec w) :=
  match op with
  | .add => some (x + y)
  | .sub => some (x - y)
  | .mul => some (x * y)
  | .div => if y = 0 then none else some (x / y)
  | .mod => if y = 0 then none else some (x % y)
  | .band => some (x &&& y)
  | .bor => some (x ||| y)
  | .bxor => some (x ^^^ y)

def CmpOp.signed (op : CmpOp) (x y : BitVec w) : Bool :=
  match op with
  | .eq => x == y
  | .ne => x != y
  | .lt => x.slt y
  | .le => x.sle y
  | .gt => y.slt x
  | .ge => y.sle x

def CmpOp.unsigned (op : CmpOp) (x y : BitVec w) : Bool :=
  match op with
  | .eq => x == y
  | .ne => x != y
  | .lt => x.ult y
  | .le => x.ule y
  | .gt => y.ult x
  | .ge => y.ule x

/-- Signed `x << n`: the standard wants `x` non-negative and `x * 2^n` representable. -/
def shlSigned (d : Dialect) (x : BitVec w) (n : Nat) : Option (BitVec w) :=
  d.checked (decide (x.toInt < 0 ∨ x.toInt * 2 ^ n ≥ 2 ^ (w - 1))) (x <<< n)

/-- A shift count, if it is one for a type of `w` bits. -/
def shiftCount (w : Nat) (b : CVal) : Option Nat :=
  if 0 ≤ b.toInt ∧ b.toInt < w then some b.toInt.toNat else none

end

def ArithOp.apply (d : Dialect) (op : ArithOp) (a b : CVal) : Option CVal :=
  match CTy.common a.promoted b.promoted with
  | .u64 => (op.unsigned a.to64 b.to64).map .u64
  | .i64 => (op.signed d a.to64 b.to64).map .i64
  | .u32 => (op.unsigned a.to32 b.to32).map .u32
  | _ => (op.signed d a.to32 b.to32).map .i32

def CmpOp.apply (op : CmpOp) (a b : CVal) : CVal :=
  match CTy.common a.promoted b.promoted with
  | .u64 => .ofBool (op.unsigned a.to64 b.to64)
  | .i64 => .ofBool (op.signed a.to64 b.to64)
  | .u32 => .ofBool (op.unsigned a.to32 b.to32)
  | _ => .ofBool (op.signed a.to32 b.to32)

/-- `a << b`, at the promoted type of `a`. -/
def shl (d : Dialect) (a b : CVal) : Option CVal :=
  match a.promoted with
  | .u64 => (shiftCount 64 b).map fun n => .u64 (a.to64 <<< n)
  | .i64 => (shiftCount 64 b).bind fun n => (shlSigned d a.to64 n).map .i64
  | .u32 => (shiftCount 32 b).map fun n => .u32 (a.to32 <<< n)
  | _ => (shiftCount 32 b).bind fun n => (shlSigned d a.to32 n).map .i32

/-- `a >> b`, at the promoted type of `a`. -/
def shr (a b : CVal) : Option CVal :=
  match a.promoted with
  | .u64 => (shiftCount 64 b).map fun n => .u64 (a.to64 >>> n)
  | .i64 => (shiftCount 64 b).map fun n => .i64 (a.to64.sshiftRight n)
  | .u32 => (shiftCount 32 b).map fun n => .u32 (a.to32 >>> n)
  | _ => (shiftCount 32 b).map fun n => .i32 (a.to32.sshiftRight n)

/-- `~a`, at the promoted type. -/
def bitNot (a : CVal) : CVal :=
  match a.promoted with
  | .u64 => .u64 (~~~a.to64)
  | .i64 => .i64 (~~~a.to64)
  | .u32 => .u32 (~~~a.to32)
  | _ => .i32 (~~~a.to32)

attribute [simp] ArithOp.signed ArithOp.unsigned CmpOp.signed CmpOp.unsigned

section
variable (d : Dialect)

@[simp] theorem ArithOp.apply_mk (op : ArithOp) :
    (∀ x y, op.apply d (.u32 x) (.u32 y) = (op.unsigned x y).map .u32) ∧
    (∀ x y, op.apply d (.u32 x) (.i32 y) = (op.unsigned x y).map .u32) ∧
    (∀ x y, op.apply d (.i32 x) (.i32 y) = (op.signed d x y).map .i32) ∧
    (∀ x y, op.apply d (.i64 x) (.i64 y) = (op.signed d x y).map .i64) ∧
    (∀ x y, op.apply d (.u64 x) (.u64 y) = (op.unsigned x y).map .u64) ∧
    (∀ x y, op.apply d (.u64 x) (.u32 y) = (op.unsigned x (y.setWidth 64)).map .u64) := by
  refine ⟨?_, ?_, ?_, ?_, ?_, ?_⟩ <;> intros <;> rfl

@[simp] theorem CmpOp.apply_mk (op : CmpOp) :
    (∀ x y, op.apply (.u32 x) (.u32 y) = .ofBool (op.unsigned x y)) ∧
    (∀ x y, op.apply (.u32 x) (.i32 y) = .ofBool (op.unsigned x y)) ∧
    (∀ x y, op.apply (.i32 x) (.i32 y) = .ofBool (op.signed x y)) ∧
    (∀ x y, op.apply (.i64 x) (.i64 y) = .ofBool (op.signed x y)) := by
  refine ⟨?_, ?_, ?_, ?_⟩ <;> intros <;> rfl

@[simp] theorem shl_mk :
    (∀ x b, shl d (.u32 x) b = ((shiftCount 32 b).map fun n => .u32 (x <<< n))) ∧
    (∀ x b, shl d (.i32 x) b =
      ((shiftCount 32 b).bind fun n => (shlSigned d x n).map .i32)) :=
  ⟨fun _ _ => rfl, fun _ _ => rfl⟩

@[simp] theorem shr_mk :
    (∀ x b, shr (.u32 x) b = ((shiftCount 32 b).map fun n => .u32 (x >>> n))) ∧
    (∀ x b, shr (.i32 x) b = ((shiftCount 32 b).map fun n => .i32 (x.sshiftRight n))) ∧
    (∀ x b, shr (.u64 x) b = ((shiftCount 64 b).map fun n => .u64 (x >>> n))) ∧
    (∀ x b, shr (.i64 x) b = ((shiftCount 64 b).map fun n => .i64 (x.sshiftRight n))) := by
  refine ⟨?_, ?_, ?_, ?_⟩ <;> intros <;> rfl

@[simp] theorem bitNot_u32 (x : BitVec 32) : bitNot (.u32 x) = .u32 (~~~x) := rfl

@[simp] theorem Dialect.checked_false {w : Nat} (x : BitVec w) : d.checked false x = some x := by
  cases d <;> rfl

end

theorem shiftCount_of_lt {w : Nat} {n : BitVec 32} (h : n.toNat < w) :
    shiftCount w (.u32 n) = some n.toNat := by
  have hn : (CVal.u32 n).toInt = n.toNat := rfl
  rw [shiftCount, hn, if_pos (by omega), Int.toNat_natCast]

theorem shiftCount_int {w : Nat} {n : BitVec 32} (h : n.toNat < w) (hw : w ≤ 2 ^ 31) :
    shiftCount w (.i32 n) = some n.toNat := by
  have hn : (CVal.i32 n).toInt = n.toNat := toInt_eq_toNat_of_lt (by omega)
  rw [shiftCount, hn, if_pos (by omega), Int.toNat_natCast]

theorem shiftCount_field (n : BitVec 5) :
    shiftCount 32 (.u32 (n.setWidth 32)) = some n.toNat := by
  have h : (n.setWidth 32).toNat = n.toNat := by
    rw [toNat_setWidth, Nat.mod_eq_of_lt (by omega)]
  rw [shiftCount_of_lt (by omega), h]

theorem shiftCount_and31 (x : BitVec 32) :
    shiftCount 32 (.u32 (x &&& 31#32)) = some (x &&& 31#32).toNat := by
  apply shiftCount_of_lt
  exact Nat.lt_of_le_of_lt Nat.and_le_right (by decide)

theorem shiftCount_bytes {s : BitVec 32} (hs : s.toNat ≤ 3) :
    shiftCount 32 (.u32 (s * 8#32)) = some (s * 8#32).toNat := by
  apply shiftCount_of_lt
  simp only [toNat_mul, toNat_ofNat]
  omega

/-- The signed sum `x + y` is one the dialect defines. -/
def Dialect.AddDefined (d : Dialect) (x y : BitVec 32) : Prop :=
  d = .iso → x.saddOverflow y = false

theorem Dialect.AddDefined.checked {d : Dialect} {x y : BitVec 32} (h : d.AddDefined x y) :
    d.checked (x.saddOverflow y) (x + y) = some (x + y) := by
  cases d with
  | iso => rw [h rfl]; rfl
  | wrapv => rfl

theorem Dialect.checked_eq_none {d : Dialect} {x y : BitVec 32} (h : ¬ d.AddDefined x y) :
    d.checked (x.saddOverflow y) (x + y) = none := by
  cases d with
  | iso =>
    have hx : x.saddOverflow y = true := by simpa [Dialect.AddDefined] using h
    rw [hx]; rfl
  | wrapv => exact absurd (fun h' => by cases h') h

/-! ## 3. Expressions -/

/-- Expressions over objects `Obj` (all `uint32_t`) and functions `Fn` of the host. -/
inductive CExpr (Obj Fn : Type) where
  | lit (v : CVal)
  | obj (o : Obj)
  | var (x : String)
  | cast (t : CTy) (e : CExpr Obj Fn)
  | bnot (e : CExpr Obj Fn)
  | arith (op : ArithOp) (a b : CExpr Obj Fn)
  | shl (a b : CExpr Obj Fn)
  | shr (a b : CExpr Obj Fn)
  | cmp (op : CmpOp) (a b : CExpr Obj Fn)
  | land (a b : CExpr Obj Fn)
  | lor (a b : CExpr Obj Fn)
  /-- `c ? a : b`; `t` is the common type of the two branches. -/
  | cond (t : CTy) (c a b : CExpr Obj Fn)
  | call0 (f : Fn)
  | call1 (f : Fn) (a : CExpr Obj Fn)
  | call2 (f : Fn) (a b : CExpr Obj Fn)
  deriving Repr

/-- A host: its objects and what its functions do. A call may be undefined (`none`). -/
structure Host (Obj Fn σ : Type) where
  load : Obj → σ → BitVec 32
  store : Obj → BitVec 32 → σ → σ
  call : Fn → List CVal → σ → Option (CVal × σ)

abbrev Env := List (String × CVal)

def Env.get (x : String) : Env → Option CVal
  | [] => none
  | (y, v) :: env => if y = x then some v else Env.get x env

def Env.set (x : String) (v : CVal) : Env → Env
  | [] => []
  | (y, w) :: env => if y = x then (y, v) :: env else (y, w) :: Env.set x v env

section
variable {Obj Fn Lbl σ : Type} (d : Dialect) (H : Host Obj Fn σ)

def CExpr.eval : CExpr Obj Fn → Env → σ → Option (CVal × σ)
  | .lit v, _, s => some (v, s)
  | .obj o, _, s => some (.u32 (H.load o s), s)
  | .var x, env, s => (Env.get x env).map fun v => (v, s)
  | .cast t e, env, s => (e.eval env s).map fun (v, s) => (v.convert t, s)
  | .bnot e, env, s => (e.eval env s).map fun (v, s) => (bitNot v, s)
  | .arith op a b, env, s =>
      (a.eval env s).bind fun (va, s) => (b.eval env s).bind fun (vb, s) =>
        (op.apply d va vb).map fun v => (v, s)
  | .shl a b, env, s =>
      (a.eval env s).bind fun (va, s) => (b.eval env s).bind fun (vb, s) =>
        (CLang.shl d va vb).map fun v => (v, s)
  | .shr a b, env, s =>
      (a.eval env s).bind fun (va, s) => (b.eval env s).bind fun (vb, s) =>
        (CLang.shr va vb).map fun v => (v, s)
  | .cmp op a b, env, s =>
      (a.eval env s).bind fun (va, s) => (b.eval env s).map fun (vb, s) => (op.apply va vb, s)
  | .land a b, env, s =>
      (a.eval env s).bind fun (va, s) =>
        if va.truthy then (b.eval env s).map fun (vb, s) => (.ofBool vb.truthy, s)
        else some (.ofBool false, s)
  | .lor a b, env, s =>
      (a.eval env s).bind fun (va, s) =>
        if va.truthy then some (.ofBool true, s)
        else (b.eval env s).map fun (vb, s) => (.ofBool vb.truthy, s)
  | .cond t c a b, env, s =>
      (c.eval env s).bind fun (vc, s) =>
        ((if vc.truthy then a.eval env s else b.eval env s)).map fun (v, s) => (v.convert t, s)
  | .call0 f, _, s => H.call f [] s
  | .call1 f a, env, s => (a.eval env s).bind fun (va, s) => H.call f [va] s
  | .call2 f a b, env, s =>
      (a.eval env s).bind fun (va, s) => (b.eval env s).bind fun (vb, s) => H.call f [va, vb] s

attribute [simp] Env.get Env.set CExpr.eval

end

/-! ## 4. Statements -/

inductive CStmt (Obj Fn Lbl : Type) where
  | skip
  /-- `o = e;` -/
  | store (o : Obj) (e : CExpr Obj Fn)
  /-- `t x = e;` -/
  | decl (t : CTy) (x : String) (e : CExpr Obj Fn)
  /-- `x = e;` for a variable of type `t` -/
  | assign (t : CTy) (x : String) (e : CExpr Obj Fn)
  /-- `e;` and `(void)e;` -/
  | expr (e : CExpr Obj Fn)
  | seq (a b : CStmt Obj Fn Lbl)
  /-- `{ … }` -/
  | block (a : CStmt Obj Fn Lbl)
  | ite (c : CExpr Obj Fn) (a b : CStmt Obj Fn Lbl)
  | goto (l : Lbl)
  | ret
  deriving Repr

/-- `s₁ s₂ …` -/
def CStmt.seqs {Obj Fn Lbl : Type} : List (CStmt Obj Fn Lbl) → CStmt Obj Fn Lbl
  | [] => .skip
  | [s] => s
  | s :: ss => .seq s (CStmt.seqs ss)

def CStmt.gotos {Obj Fn Lbl : Type} : CStmt Obj Fn Lbl → List Lbl
  | .seq a b => a.gotos ++ b.gotos
  | .block a => a.gotos
  | .ite _ a b => a.gotos ++ b.gotos
  | .goto l => [l]
  | _ => []

export Linear (Flow)

section
variable {Obj Fn Lbl σ : Type} (d : Dialect) (H : Host Obj Fn σ)

def CStmt.exec : CStmt Obj Fn Lbl → Env → σ → Option (Flow Lbl × Env × σ)
  | .skip, env, s => some (.next, env, s)
  | .store o e, env, s => (e.eval d H env s).map fun (v, s) => (.next, env, H.store o v.to32 s)
  | .decl t x e, env, s =>
      (e.eval d H env s).map fun (v, s) => (.next, (x, v.convert t) :: env, s)
  | .assign t x e, env, s =>
      (e.eval d H env s).map fun (v, s) => (.next, Env.set x (v.convert t) env, s)
  | .expr e, env, s => (e.eval d H env s).map fun (_, s) => (.next, env, s)
  | .seq a b, env, s =>
      (a.exec env s).bind fun
        | (.next, env, s) => b.exec env s
        | r => some r
  | .block a, env, s =>
      -- leaving the block drops the variables it declared
      (a.exec env s).map fun (f, env', s) => (f, env'.drop (env'.length - env.length), s)
  | .ite c a b, env, s =>
      (c.eval d H env s).bind fun (v, s) => if v.truthy then a.exec env s else b.exec env s
  | .goto l, env, s => some (.goto l, env, s)
  | .ret, env, s => some (.ret, env, s)

attribute [simp] CStmt.exec CStmt.seqs

end

end CLang
