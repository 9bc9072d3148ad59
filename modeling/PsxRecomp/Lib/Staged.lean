import PsxRecomp.Lib.Linear

/-!
# `Lib/Staged.lean` — generators of straight-line code, and what their code does

A one-pass compiler is a program with two lives: it runs now, updating its own state `γ`, and the
instructions it emits run later, on a machine state `σ`. `Gen` is the monad of the first life.
`wp` speaks about both at once: the code the generator emits from `g`, run from `s`, falls through,
and `Q` holds of the generator's result, its new state and the machine's new state. A specification
that relates a register cache to the registers it describes is then an ordinary precondition and
postcondition, and `wp_bind` carries it through the generator statement by statement.
-/

set_option autoImplicit false

namespace Staged

open Linear

structure Out (γ I α : Type) where
  val : α
  code : List I
  gen : γ

/-- A generator: from its state to a result, the code it emits, and the new state. -/
def Gen (γ I α : Type) := γ → Out γ I α

section
variable {γ I α β : Type}

namespace Gen

protected def pure (a : α) : Gen γ I α := fun g => ⟨a, [], g⟩

protected def bind (m : Gen γ I α) (f : α → Gen γ I β) : Gen γ I β := fun g =>
  let r := m g
  let r' := f r.val r.gen
  ⟨r'.val, r.code ++ r'.code, r'.gen⟩

instance : Monad (Gen γ I) where
  pure := Gen.pure
  bind := Gen.bind

def emit (i : I) : Gen γ I Unit := fun g => ⟨(), [i], g⟩

def state : Gen γ I γ := fun g => ⟨g, [], g⟩

def modify (f : γ → γ) : Gen γ I Unit := fun g => ⟨(), [], f g⟩

end Gen

section
variable (m : Gen γ I α) (k : α → Gen γ I β) (a : α) (g : γ)

theorem bind_apply : (m >>= k) g = ⟨(k (m g).val (m g).gen).val,
    (m g).code ++ (k (m g).val (m g).gen).code, (k (m g).val (m g).gen).gen⟩ := rfl

@[simp] theorem bind_val : ((m >>= k) g).val = (k (m g).val (m g).gen).val := rfl
@[simp] theorem bind_code : ((m >>= k) g).code = (m g).code ++ (k (m g).val (m g).gen).code := rfl
@[simp] theorem bind_gen : ((m >>= k) g).gen = (k (m g).val (m g).gen).gen := rfl
@[simp] theorem pure_val : ((pure a : Gen γ I α) g).val = a := rfl
@[simp] theorem pure_code : ((pure a : Gen γ I α) g).code = [] := rfl
@[simp] theorem pure_gen : ((pure a : Gen γ I α) g).gen = g := rfl

end

/-- The generator leaves a property of its state as it is. -/
def Keeps {δ : Type} (f : γ → δ) (m : Gen γ I α) : Prop := ∀ g, f (m g).gen = f g

section
variable {δ : Type} {f : γ → δ}

theorem Keeps.pure (a : α) : Keeps f (pure a : Gen γ I α) := fun _ => rfl

theorem Keeps.bind {m : Gen γ I α} {k : α → Gen γ I β} (hm : Keeps f m) (hk : ∀ a, Keeps f (k a)) :
    Keeps f (m >>= k) :=
  fun g => (hk _ _).trans (hm g)

theorem Keeps.emit (i : I) : Keeps f (Gen.emit i : Gen γ I Unit) := fun _ => rfl

theorem Keeps.state : Keeps f (Gen.state : Gen γ I γ) := fun _ => rfl

theorem Keeps.modify {u : γ → γ} (hu : ∀ g, f (u g) = f g) :
    Keeps f (Gen.modify u : Gen γ I Unit) :=
  hu

end

variable {L σ : Type} (exec : I → σ → Option (Flow L × σ))

/-- The code `m` emits from `g` takes `s` to its end, and `Q` holds there. -/
def wp (m : Gen γ I α) (Q : α → γ → σ → Prop) (g : γ) (s : σ) : Prop :=
  ∃ s', runInstrs exec (m g).code s = some (.next, s') ∧ Q (m g).val (m g).gen s'

variable {exec} {Q : α → γ → σ → Prop} {g : γ} {s s' : σ}

theorem wp_pure {a : α} (h : Q a g s) : wp exec (pure a) Q g s :=
  ⟨s, rfl, h⟩

theorem wp_bind {Q : β → γ → σ → Prop} {m : Gen γ I α} {f : α → Gen γ I β}
    (h : wp exec m (fun a g s => wp exec (f a) Q g s) g s) : wp exec (m >>= f) Q g s := by
  obtain ⟨s₁, h₁, s₂, h₂, hQ⟩ := h
  exact ⟨s₂, (runInstrs_append h₁).trans h₂, hQ⟩

theorem wp_mono {Q' : α → γ → σ → Prop} {m : Gen γ I α} (h : wp exec m Q g s)
    (hq : ∀ a g s, Q a g s → Q' a g s) : wp exec m Q' g s := by
  obtain ⟨s', hr, hQ⟩ := h
  exact ⟨s', hr, hq _ _ _ hQ⟩

theorem wp_seq {Q : α → γ → σ → Prop} {Q' : β → γ → σ → Prop} {m : Gen γ I α}
    {f : α → Gen γ I β} (h : wp exec m Q g s)
    (hf : ∀ a g s, Q a g s → wp exec (f a) Q' g s) : wp exec (m >>= f) Q' g s :=
  wp_bind (wp_mono h hf)

theorem wp_emit {Q : Unit → γ → σ → Prop} {i : I} (hi : exec i s = some (.next, s'))
    (h : Q () g s') : wp exec (Gen.emit i) Q g s :=
  ⟨s', by simp [Gen.emit, runInstrs, hi], h⟩

theorem wp_state {Q : γ → γ → σ → Prop} (h : Q g g s) : wp exec Gen.state Q g s :=
  ⟨s, rfl, h⟩

theorem wp_modify {Q : Unit → γ → σ → Prop} {f : γ → γ} (h : Q () (f g) s) :
    wp exec (Gen.modify f) Q g s :=
  ⟨s, rfl, h⟩

end

end Staged
