import Mathlib.Data.List.Basic

/-!
# `Lib/Runs.lean` — runs of a machine

Three kinds of machine that take one operation after another. `Runs`: an operation may stop the machine and
is taken only where it is allowed; an invariant holds in all states so reached (`Reached.invariant`).
`Ranked`: every event is taken, and those that count lower a rank, so enough of them lead to a goal
(`reaches`). `Logged`: a step also reports events, and the reports of several steps are put one after the
other (`times_add`).
-/

set_option autoImplicit false

/-! ## 1. Reachable states -/

namespace Runs

variable {S A : Type}

inductive Reached (step : A → S → Option S) (ok : A → S → Prop) (init : S → Prop) : S → Prop
  | start {s : S} : init s → Reached step ok init s
  | next {s s' : S} {a : A} :
      Reached step ok init s → ok a s → step a s = some s' → Reached step ok init s'

variable {step : A → S → Option S} {ok : A → S → Prop} {init : S → Prop} {s : S}

/-- An invariant of the start and of every operation that is allowed holds in every state reached. -/
theorem Reached.invariant {I : S → Prop} (hinit : ∀ s, init s → I s)
    (hstep : ∀ a s s', I s → ok a s → step a s = some s' → I s')
    (h : Reached step ok init s) : I s := by
  induction h with
  | start h => exact hinit _ h
  | next _ hok heq ih => exact hstep _ _ _ ih hok heq

end Runs

/-! ## 2. Progress -/

namespace Ranked

section
variable {S A : Type} (step : A → S → S)

def run : List A → S → S
  | [], s => s
  | a :: es, s => run es (step a s)

/-- Every event of the run is allowed in the state it is taken in. -/
def All (ok : A → S → Prop) : List A → S → Prop
  | [], _ => True
  | a :: es, s => ok a s ∧ All ok es (step a s)

def count (counts : A → S → Bool) : List A → S → Nat
  | [], _ => 0
  | a :: es, s => (counts a s).toNat + count counts es (step a s)

variable {step}

theorem run_invariant {I : S → Prop} (hstep : ∀ a s, I s → I (step a s)) {s : S} (h : I s)
    (es : List A) : I (run step es s) := by
  induction es generalizing s with
  | nil => exact h
  | cons a es ih => exact ih (hstep a s h)

/-- The ranking argument: as long as the goal `G` is not reached, every allowed event keeps `I` and does not raise
the rank `R`, and one that counts lowers it. -/
theorem reaches {I G : S → Prop} {ok : A → S → Prop} {counts : A → S → Bool} {R : S → Nat}
    (hstep : ∀ a s, I s → ok a s →
      G (step a s) ∨ I (step a s) ∧ R (step a s) + (counts a s).toNat ≤ R s)
    {es : List A} : ∀ {s : S}, I s → All step ok es s → R s < count step counts es s →
      ∃ k ≤ es.length, G (run step (es.take k) s) := by
  induction es with
  | nil => exact fun _ _ hcount => absurd hcount (Nat.not_lt_zero _)
  | cons a es ih =>
    rintro s hI ⟨hok, hall⟩ hcount
    obtain hgoal | ⟨hI', hrank⟩ := hstep a s hI hok
    · exact ⟨1, by simp, hgoal⟩
    · unfold count at hcount
      obtain ⟨k, hk, hgoal⟩ := ih hI' hall (by omega)
      exact ⟨k + 1, Nat.succ_le_succ hk, hgoal⟩

end

end Ranked

/-! ## 3. Steps that report -/

namespace Logged

variable {S E : Type}

/-- First `f`, then `g`. -/
def andThen (f g : S → S × List E) (s : S) : S × List E :=
  ((g (f s).1).1, (f s).2 ++ (g (f s).1).2)

/-- `n` steps -/
def times (f : S → S × List E) : Nat → S → S × List E
  | 0, s => (s, [])
  | n + 1, s => andThen f (times f n) s

variable {f : S → S × List E}

@[simp]
theorem times_zero (s : S) : times f 0 s = (s, []) := rfl

theorem times_succ (n : Nat) (s : S) : times f (n + 1) s = andThen f (times f n) s := rfl

@[simp]
theorem times_one (s : S) : times f 1 s = f s := by
  simp [times, andThen]

theorem times_add (m n : Nat) (s : S) : times f (m + n) s = andThen (times f m) (times f n) s := by
  induction m generalizing s with
  | zero => simp [andThen]
  | succ m ih =>
    rw [Nat.succ_add, times_succ]
    simp [andThen, times_succ, ih, List.append_assoc]

theorem times_succ_last (n : Nat) (s : S) : times f (n + 1) s = andThen (times f n) f s := by
  rw [times_add]
  simp [andThen]

/-- The induction along a run that stays silent -/
theorem times_silent {P : Nat → S → Prop} (h : ∀ n s, P (n + 1) s → (f s).2 = [] ∧ P n (f s).1)
    {n : Nat} {s : S} (hs : P n s) : (times f n s).2 = [] := by
  induction n generalizing s with
  | zero => rfl
  | succ n ih =>
    obtain ⟨hnone, hnext⟩ := h n s hs
    rw [times_succ, andThen, hnone, ih hnext, List.append_nil]

end Logged
