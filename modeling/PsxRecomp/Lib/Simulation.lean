import PsxRecomp.Lib.Linear

/-!
# `Lib/Simulation.lean` — a stepping machine against labelled code

A source machine that steps until it leaves, and a body of labelled code that runs until it returns.
`Simulates` is the step obligation: from related positions, one source step is matched either by the
code reaching its return, by moving forward in the code (then a rank goes down), or by one jump.
-/

set_option autoImplicit false

namespace Linear

inductive Outcome (τ ρ : Type) where
  | goOn (t : τ)
  | leaves (r : ρ)
  | stuck

section
variable {τ ρ : Type} (next : τ → Outcome τ ρ)

/-- The source, stepped from `t`, leaves with `r`. -/
inductive Leaves : τ → ρ → Prop
  | leave {t : τ} {r : ρ} : next t = .leaves r → Leaves t r
  | step {t t' : τ} {r : ρ} : next t = .goOn t' → Leaves t' r → Leaves t r

inductive Reaches : τ → τ → Prop
  | refl (t : τ) : Reaches t t
  | step {t t' u : τ} : next t = .goOn t' → Reaches t' u → Reaches t u

variable {L I σ : Type} [DecidableEq L] (exec : I → σ → Option (Flow L × σ))
  (body : List (Item L I)) (out : σ → ρ)

/-- `At k t code s`: the source state `t` is where the code is, with rank `k`. Only source states
that are `ok` need to be matched. -/
def Simulates (At : Nat → τ → List (Item L I) → σ → Prop) (ok : τ → Prop) : Prop :=
  ∀ k t code s, At k t code s → ok t →
    (∃ s', next t = .leaves (out s') ∧ run exec code s = some (.ret, s')) ∨
    ∃ k' t' code' s', next t = .goOn t' ∧ At k' t' code' s' ∧
      ((run exec code s = run exec code' s' ∧ k' < k) ∨
        ∃ l, run exec code s = some (.goto l, s') ∧ after l body = some code')

variable {next exec body out} {At : Nat → τ → List (Item L I) → σ → Prop} {ok : τ → Prop}
  {k : Nat} {t : τ} {code : List (Item L I)} {s : σ} {r : ρ}

theorem Leaves.eq_of_leaves {r' : ρ} (h : next t = .leaves r) (hl : Leaves next t r') : r' = r := by
  cases hl with
  | leave hl =>
    rw [h] at hl
    cases hl
    rfl
  | step hs =>
    rw [h] at hs
    cases hs

theorem Reaches.of_goOn {t' u : τ} (hr : Reaches next t u) (h : next t = .goOn t') :
    u = t ∨ Reaches next t' u := by
  cases hr with
  | refl => exact .inl rfl
  | step hs hr =>
    cases h.symm.trans hs
    exact .inr hr

theorem Reaches.eq_of_leaves {u : τ} (hr : Reaches next t u) (h : next t = .leaves r) : u = t := by
  cases hr with
  | refl => rfl
  | step hs =>
    rw [h] at hs
    cases hs

theorem Simulates.exits_of_leaves (hsim : Simulates next exec body out At ok)
    (hl : Leaves next t r) (hat : At k t code s) (hok : ∀ u, Reaches next t u → ok u) :
    ∃ n s', Exits exec body n code s s' ∧ out s' = r := by
  induction hl generalizing k code s with
  | @leave t r hleave =>
    rcases hsim k t code s hat (hok t (.refl t)) with ⟨s', hs', hrun⟩ | ⟨_, _, _, _, hgo, _⟩
    · rw [hleave] at hs'
      cases hs'
      exact ⟨0, s', .ret hrun, rfl⟩
    · rw [hleave] at hgo
      cases hgo
  | @step t t' r hstep _ ih =>
    rcases hsim k t code s hat (hok t (.refl t)) with ⟨s', hs', _⟩ | ⟨k', u, code', s', hgo, hat', hrun⟩
    · rw [hstep] at hs'
      cases hs'
    · rw [hstep] at hgo
      cases hgo
      obtain ⟨n, s'', hex, hout⟩ := ih hat' fun u hu => hok u (.step hstep hu)
      rcases hrun with ⟨hrun, -⟩ | ⟨l, hrun, hafter⟩
      · exact ⟨n, s'', .of_run hrun hex, hout⟩
      · exact ⟨n + 1, s'', .goto hrun hafter hex, hout⟩

theorem Simulates.leaves_of_exits (hsim : Simulates next exec body out At ok) {n : Nat} {s' : σ}
    (hex : Exits exec body n code s s') (hat : At k t code s)
    (hok : ∀ u, Reaches next t u → ok u) : Leaves next t (out s') := by
  induction n using Nat.strongRecOn generalizing k t code s with
  | ind n ihn =>
    induction k using Nat.strongRecOn generalizing t code s with
    | ind k ihk =>
      rcases hsim k t code s hat (hok t (.refl t)) with
        ⟨s₁, hleave, hrun⟩ | ⟨k', u, code', s₁, hgo, hat', ⟨hrun, hk⟩ | ⟨l, hrun, hafter⟩⟩
      · obtain ⟨-, rfl⟩ := (Exits.iff_of_ret hrun).mp hex
        exact .leave hleave
      · exact .step hgo (ihk k' hk ((Exits.iff_of_run hrun).mp hex) hat'
          fun w hw => hok w (.step hgo hw))
      · obtain ⟨m, rfl, hex'⟩ := (Exits.iff_of_goto hrun hafter).mp hex
        exact .step hgo (ihn m (by omega) hex' hat' fun w hw => hok w (.step hgo hw))

/-- The code returns with a result exactly when the source leaves with it. From the code back to the
source, the rank and the number of jumps bound how many source steps an execution can stand for. -/
theorem Simulates.exits_iff (hsim : Simulates next exec body out At ok) (hat : At k t code s)
    (hok : ∀ u, Reaches next t u → ok u) :
    (∃ n s', Exits exec body n code s s' ∧ out s' = r) ↔ Leaves next t r := by
  constructor
  · rintro ⟨n, s', hex, rfl⟩
    exact hsim.leaves_of_exits hex hat hok
  · intro hl
    exact hsim.exits_of_leaves hl hat hok

end

end Linear
