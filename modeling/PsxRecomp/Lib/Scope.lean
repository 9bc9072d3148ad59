import PsxRecomp.Lib.CLang

/-!
# `Lib/Scope.lean` — variables a statement can see

`scope` finds the variables in scope behind a statement, and fails where a variable is not declared.
-/

set_option autoImplicit false

namespace CLang

open List Option

variable {Obj Fn Lbl σ : Type} {d : Dialect} {H : Host Obj Fn σ}

def Env.names (env : Env) : List String := env.map Prod.fst

/-- Every variable the expression reads is one of `B`. -/
def CExpr.sees (B : List String) : CExpr Obj Fn → Bool
  | .lit _ | .obj _ | .call0 _ => true
  | .var x => x ∈ B
  | .cast _ e | .bnot e | .call1 _ e => e.sees B
  | .arith _ a b | .shl a b | .shr a b | .cmp _ a b | .land a b | .lor a b | .call2 _ a b =>
    a.sees B && b.sees B
  | .cond _ c a b => c.sees B && (a.sees B && b.sees B)

/-- The variables in scope behind the statement, where `B` are in scope before it -/
def CStmt.scope : CStmt Obj Fn Lbl → List String → Option (List String)
  | .skip, B | .goto _, B | .ret, B => some B
  | .store _ e, B | .expr e, B => if e.sees B then some B else none
  | .decl _ x e, B => if e.sees B then some (x :: B) else none
  | .assign _ x e, B => if e.sees B ∧ x ∈ B then some B else none
  | .seq a b, B => (a.scope B).bind b.scope
  | .block a, B => (a.scope B).map fun _ => B
  | .ite c a b, B => if c.sees B ∧ a.scope B = some B ∧ b.scope B = some B then some B else none

def CStmt.Closed (s : CStmt Obj Fn Lbl) : Prop := s.scope [] = some []

/-! ## 1. Environments -/

variable {env : Env}

theorem Env.get_append {x : String} {frame : Env} (hx : x ∈ env.names) :
    Env.get x (env ++ frame) = Env.get x env := by
  induction env with
  | nil => cases hx
  | cons p env ih =>
    obtain ⟨y, v⟩ := p
    by_cases hy : y = x
    · simp [hy]
    · have hx : x ∈ Env.names env := (mem_cons.mp hx).resolve_left fun h => hy h.symm
      simp [hy, ih hx]

theorem Env.set_append {x : String} {v : CVal} {frame : Env} (hx : x ∈ env.names) :
    Env.set x v (env ++ frame) = Env.set x v env ++ frame := by
  induction env with
  | nil => cases hx
  | cons p env ih =>
    obtain ⟨y, w⟩ := p
    by_cases hy : y = x
    · simp [hy]
    · have hx : x ∈ Env.names env := (mem_cons.mp hx).resolve_left fun h => hy h.symm
      simp [hy, ih hx]

theorem Env.names_set (x : String) (v : CVal) (env : Env) : (Env.set x v env).names = env.names := by
  induction env with
  | nil => rfl
  | cons p env ih =>
    obtain ⟨y, w⟩ := p
    by_cases hy : y = x
    · simp [Env.names, hy]
    · simpa [Env.names, hy] using ih

/-! ## 2. Expressions -/

variable {e : CExpr Obj Fn}

theorem CExpr.eval_frame (frame : Env) (he : e.sees env.names = true)
    (s : σ) : e.eval d H (env ++ frame) s = e.eval d H env s := by
  induction e generalizing s with
  | lit v | obj o | call0 f => rfl
  | var x => simp only [CExpr.eval, Env.get_append (of_decide_eq_true he)]
  | cast t e ih | bnot e ih | call1 f e ih => simp only [CExpr.eval, ih he]
  | arith op a b iha ihb | shl a b iha ihb | shr a b iha ihb | cmp op a b iha ihb | land a b iha ihb
  | lor a b iha ihb | call2 f a b iha ihb =>
    obtain ⟨ha, hb⟩ := Bool.and_eq_true_iff.mp he
    simp [CExpr.eval, iha ha, ihb hb]
  | cond t c a b ihc iha ihb =>
    obtain ⟨hc, hab⟩ := Bool.and_eq_true_iff.mp he
    obtain ⟨ha, hb⟩ := Bool.and_eq_true_iff.mp hab
    simp [CExpr.eval, ihc hc, iha ha, ihb hb]

/-! ## 3. Statements -/

variable {a : CStmt Obj Fn Lbl} {s : σ}

theorem CStmt.exec_scope {B : List String}
    (ha : a.scope env.names = some B) {r : Flow Lbl × Env × σ}
    (hr : a.exec d H env s = some r) : env.names <:+ r.2.1.names ∧ (r.1 = .next → r.2.1.names = B) := by
  induction a generalizing env B s r with
  | skip | goto l | ret =>
    cases ha
    cases hr
    exact ⟨suffix_refl _, fun _ => rfl⟩
  | store o e | expr e =>
    obtain ⟨-, h⟩ := ite_none_right_eq_some.mp ha
    cases h
    obtain ⟨v, -, rfl⟩ := map_eq_some_iff.mp hr
    exact ⟨suffix_refl _, fun _ => rfl⟩
  | decl t x e =>
    obtain ⟨-, h⟩ := ite_none_right_eq_some.mp ha
    cases h
    obtain ⟨v, -, rfl⟩ := map_eq_some_iff.mp hr
    exact ⟨suffix_cons _ _, fun _ => rfl⟩
  | assign t x e =>
    obtain ⟨-, h⟩ := ite_none_right_eq_some.mp ha
    cases h
    obtain ⟨v, -, rfl⟩ := map_eq_some_iff.mp hr
    have hnames := Env.names_set x (v.1.convert t) env
    exact ⟨hnames ▸ suffix_refl _, fun _ => hnames⟩
  | seq a b iha ihb =>
    obtain ⟨B₁, hB₁, hB⟩ := bind_eq_some_iff.mp ha
    obtain ⟨⟨f, env₁, s₁⟩, hr₁, hr⟩ := bind_eq_some_iff.mp hr
    obtain ⟨hsuf, hnext⟩ := iha hB₁ hr₁
    cases f with
    | next =>
      have hB₁ := hnext rfl
      obtain ⟨hsuf', hnext'⟩ := ihb (hB₁ ▸ hB) hr
      exact ⟨hsuf.trans hsuf', hnext'⟩
    | goto l | ret =>
      cases hr
      exact ⟨hsuf, nofun⟩
  | block a ih =>
    obtain ⟨B₁, hB₁, h⟩ := map_eq_some_iff.mp ha
    cases h
    obtain ⟨⟨f, env₁, s₁⟩, hr₁, rfl⟩ := map_eq_some_iff.mp hr
    have hdrop : Env.names (env₁.drop (env₁.length - env.length)) = env.names := by
      have hsuf := List.suffix_iff_eq_drop.mp (ih hB₁ hr₁).1
      simpa [Env.names, map_drop] using hsuf.symm
    exact ⟨hdrop ▸ suffix_refl _, fun _ => hdrop⟩
  | ite c a b iha ihb =>
    obtain ⟨⟨-, hsa, hsb⟩, h⟩ := ite_none_right_eq_some.mp ha
    cases h
    obtain ⟨⟨v, s₁⟩, -, hr⟩ := bind_eq_some_iff.mp hr
    dsimp only at hr
    split_ifs at hr
    · exact iha hsa hr
    · exact ihb hsb hr

/-- A statement that declares every variable it reads runs in any scope as it runs in the empty one: the
variables around it are neither read nor changed. -/
theorem CStmt.exec_frame {B : List String} (frame : Env)
    (ha : a.scope env.names = some B) (s : σ) :
    a.exec d H (env ++ frame) s =
      (a.exec d H env s).map fun r => (r.1, r.2.1 ++ frame, r.2.2) := by
  induction a generalizing env B s with
  | skip | goto l | ret => rfl
  | store o e | expr e | decl t x e =>
    obtain ⟨he, -⟩ := ite_none_right_eq_some.mp ha
    simp only [CStmt.exec, CExpr.eval_frame frame he, Option.map_map]
    rfl
  | assign t x e =>
    obtain ⟨⟨he, hx⟩, -⟩ := ite_none_right_eq_some.mp ha
    simp only [CStmt.exec, CExpr.eval_frame frame he, Option.map_map, Env.set_append hx]
    rfl
  | seq a b iha ihb =>
    obtain ⟨B₁, hB₁, hB⟩ := bind_eq_some_iff.mp ha
    simp only [CStmt.exec, iha hB₁]
    cases hr : a.exec d H env s with
    | none => rfl
    | some r =>
      obtain ⟨f, env₁, s₁⟩ := r
      cases f with
      | next => exact ihb ((exec_scope hB₁ hr).2 rfl ▸ hB) s₁
      | goto l | ret => rfl
  | block a ih =>
    obtain ⟨B₁, hB₁, -⟩ := map_eq_some_iff.mp ha
    simp only [CStmt.exec, ih hB₁, Option.map_map]
    refine map_congr fun r hr => ?_
    obtain ⟨f, env₁, s₁⟩ := r
    simp only [Function.comp, length_append, Nat.add_sub_add_right]
    rw [drop_append_of_le_length (Nat.sub_le _ _)]
  | ite c a b iha ihb =>
    obtain ⟨⟨hc, hsa, hsb⟩, -⟩ := ite_none_right_eq_some.mp ha
    simp only [CStmt.exec, CExpr.eval_frame frame hc]
    cases c.eval d H env s with
    | none => rfl
    | some r =>
      obtain ⟨v, s₁⟩ := r
      simp only [bind_some]
      split_ifs
      · exact iha hsa s₁
      · exact ihb hsb s₁

theorem CStmt.Closed.exec (ha : a.Closed) (env : Env) (s : σ) :
    a.exec d H env s = (a.exec d H [] s).map fun r => (r.1, r.2.1 ++ env, r.2.2) :=
  exec_frame env (show a.scope (Env.names []) = some [] from ha) s

theorem CStmt.Closed.env_eq (ha : a.Closed) {s' : σ}
    (hr : a.exec d H [] s = some (.next, env, s')) : env = [] :=
  List.map_eq_nil_iff.mp ((exec_scope (show a.scope (Env.names []) = some [] from ha) hr).2 rfl)

/-! ## 4. Straight code -/

def CStmt.straight : CStmt Obj Fn Lbl → Bool
  | .goto _ | .ret => false
  | .seq a b | .ite _ a b => a.straight && b.straight
  | .block a => a.straight
  | .skip | .store _ _ | .decl _ _ _ | .assign _ _ _ | .expr _ => true

theorem CStmt.exec_straight (ha : a.straight = true)
    {r : Flow Lbl × Env × σ} (hr : a.exec d H env s = some r) : r.1 = .next := by
  induction a generalizing env s r with
  | skip =>
    cases hr
    rfl
  | goto l | ret => cases ha
  | store o e | expr e | decl t x e | assign t x e =>
    obtain ⟨v, -, rfl⟩ := map_eq_some_iff.mp hr
    rfl
  | seq a b iha ihb =>
    obtain ⟨hsa, hsb⟩ := Bool.and_eq_true_iff.mp ha
    obtain ⟨⟨f, env₁, s₁⟩, hr₁, hr⟩ := bind_eq_some_iff.mp hr
    cases iha hsa hr₁
    exact ihb hsb hr
  | block a ih =>
    obtain ⟨⟨f, env₁, s₁⟩, hr₁, rfl⟩ := map_eq_some_iff.mp hr
    cases ih ha hr₁
    rfl
  | ite c a b iha ihb =>
    obtain ⟨hsa, hsb⟩ := Bool.and_eq_true_iff.mp ha
    obtain ⟨⟨v, s₁⟩, -, hr⟩ := bind_eq_some_iff.mp hr
    dsimp only at hr
    split_ifs at hr
    · exact iha hsa hr
    · exact ihb hsb hr

/-- Straight code that needs no variable: all it has is an effect on the state. -/
structure CStmt.Simple (a : CStmt Obj Fn Lbl) : Prop where
  closed : a.Closed
  straight : a.straight = true

variable (d H) in
def CStmt.effect (a : CStmt Obj Fn Lbl) (s : σ) : Option σ := (a.exec d H [] s).map fun r => r.2.2

theorem CStmt.Simple.exec (ha : a.Simple) (env : Env) (s : σ) :
    a.exec d H env s = (a.effect d H s).map fun s' => (.next, env, s') := by
  rw [ha.closed.exec env s, CStmt.effect, Option.map_map]
  refine map_congr fun r hr => ?_
  obtain ⟨f, env', s'⟩ := r
  cases exec_straight ha.straight hr
  cases ha.closed.env_eq hr
  rfl

theorem CStmt.simple_skip : (CStmt.skip : CStmt Obj Fn Lbl).Simple := ⟨rfl, rfl⟩

theorem CStmt.simple_store {o : Obj} (he : e.sees [] = true) :
    (CStmt.store o e : CStmt Obj Fn Lbl).Simple := ⟨if_pos he, rfl⟩

theorem CStmt.simple_expr (he : e.sees [] = true) :
    (CStmt.expr e : CStmt Obj Fn Lbl).Simple := ⟨if_pos he, rfl⟩

end CLang
