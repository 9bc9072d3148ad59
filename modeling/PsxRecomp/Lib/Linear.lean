/-!
# `Lib/Linear.lean` — linear code with labels

Code as a list: instructions with labels between them. What one instruction does is a parameter `exec`;
an instruction falls through, jumps to a label, or returns, and `none` is an instruction whose behaviour
is not defined. `run` goes to the first jump or return, `after` finds the code behind a label, and
`Exits` is a whole execution of a body, with the number of jumps it took. The count is what a converse
needs: an execution that is known to end is consumed jump by jump.
-/

set_option autoImplicit false

namespace Linear

/-- How control leaves an instruction or a piece of code. -/
inductive Flow (L : Type) where
  | next
  | goto (l : L)
  | ret
  deriving DecidableEq, Repr

inductive Item (L I : Type) where
  | label (l : L)
  | instr (i : I)
  deriving DecidableEq, Repr

section
variable {L I σ : Type} (exec : I → σ → Option (Flow L × σ))

/-- Run instructions to the first jump or return; `next` means control ran off the end. -/
def runInstrs : List I → σ → Option (Flow L × σ)
  | [], s => some (.next, s)
  | i :: is, s =>
      (exec i s).bind fun
        | (.next, s) => runInstrs is s
        | r => some r

/-- The same for code with labels, which do nothing when control passes them. -/
def run : List (Item L I) → σ → Option (Flow L × σ)
  | [], s => some (.next, s)
  | .label _ :: is, s => run is s
  | .instr i :: is, s =>
      (exec i s).bind fun
        | (.next, s) => run is s
        | r => some r

def after [DecidableEq L] (l : L) : List (Item L I) → Option (List (Item L I))
  | [] => none
  | .label l' :: is => if l' = l then some is else after l is
  | .instr _ :: is => after l is

/-- `body`, entered with `code` still to run, returns after `n` jumps. -/
inductive Exits [DecidableEq L] (body : List (Item L I)) :
    Nat → List (Item L I) → σ → σ → Prop
  | ret {code : List (Item L I)} {s s' : σ} :
      run exec code s = some (.ret, s') → Exits body 0 code s s'
  | goto {n : Nat} {code code' : List (Item L I)} {l : L} {s s₁ s' : σ} :
      run exec code s = some (.goto l, s₁) → after l body = some code' →
      Exits body n code' s₁ s' → Exits body (n + 1) code s s'

variable {exec}

@[simp] theorem runInstrs_nil (s : σ) : runInstrs exec [] s = some (.next, s) := rfl

theorem runInstrs_cons_next {i : I} {is : List I} {s s' : σ}
    (h : runInstrs exec (i :: is) s = some (.next, s')) :
    ∃ s₁, exec i s = some (.next, s₁) ∧ runInstrs exec is s₁ = some (.next, s') := by
  obtain ⟨⟨f, s₁⟩, hi, h⟩ := Option.bind_eq_some_iff.mp h
  cases f with
  | next => exact ⟨s₁, hi, h⟩
  | goto l | ret => cases h

theorem runInstrs_append {a b : List I} {s s' : σ}
    (h : runInstrs exec a s = some (.next, s')) :
    runInstrs exec (a ++ b) s = runInstrs exec b s' := by
  induction a generalizing s with
  | nil =>
    cases h
    rfl
  | cons i is ih =>
    obtain ⟨s₁, hi, h⟩ := runInstrs_cons_next h
    simp only [List.cons_append, runInstrs, hi]
    exact ih h

theorem run_instrs_append {a : List I} {b : List (Item L I)} {s s' : σ}
    (h : runInstrs exec a s = some (.next, s')) :
    run exec (a.map .instr ++ b) s = run exec b s' := by
  induction a generalizing s with
  | nil =>
    cases h
    rfl
  | cons i is ih =>
    obtain ⟨s₁, hi, h⟩ := runInstrs_cons_next h
    simp only [List.map_cons, List.cons_append, run, hi]
    exact ih h

section
variable [DecidableEq L]

@[simp] theorem after_instrs (l : L) (a : List I) (b : List (Item L I)) :
    after l (a.map .instr ++ b) = after l b := by
  induction a with
  | nil => rfl
  | cons i is ih => exact ih

@[simp] theorem after_label_self (l : L) (is : List (Item L I)) :
    after l (.label l :: is) = some is :=
  if_pos rfl

variable {body code code' : List (Item L I)} {n : Nat} {s s' r : σ}

theorem Exits.of_run (h : run exec code s = run exec code' s') (he : Exits exec body n code' s' r) :
    Exits exec body n code s r := by
  cases he with
  | ret hr => exact .ret (h.trans hr)
  | goto hr ha he => exact .goto (h.trans hr) ha he

/-- The one rule that moves along the code: two positions whose runs agree end alike. -/
theorem Exits.iff_of_run (h : run exec code s = run exec code' s') :
    Exits exec body n code s r ↔ Exits exec body n code' s' r :=
  ⟨.of_run h.symm, .of_run h⟩

theorem Exits.iff_of_ret (h : run exec code s = some (.ret, s')) :
    Exits exec body n code s r ↔ n = 0 ∧ r = s' := by
  constructor
  · intro he
    cases he with
    | ret hr =>
      rw [h] at hr
      cases hr
      exact ⟨rfl, rfl⟩
    | goto hr _ _ =>
      rw [h] at hr
      cases hr
  · rintro ⟨rfl, rfl⟩
    exact .ret h

theorem Exits.iff_of_goto {l : L} (h : run exec code s = some (.goto l, s'))
    (ha : after l body = some code') :
    Exits exec body n code s r ↔ ∃ m, n = m + 1 ∧ Exits exec body m code' s' r := by
  constructor
  · intro he
    cases he with
    | ret hr =>
      rw [h] at hr
      cases hr
    | goto hr ha' he =>
      rw [h] at hr
      cases hr
      rw [ha] at ha'
      cases ha'
      exact ⟨_, rfl, he⟩
  · rintro ⟨m, rfl, he⟩
    exact .goto h ha he

end

end

end Linear
