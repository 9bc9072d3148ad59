import Mathlib.Order.Defs.Unbundled

/-!
# `Lib/Within.lean` — stateful code that keeps to a relation

`Within r m` says that every run of `m` ends in a state that `r` relates to the one it started in.
When `r` is a preorder the property composes along `do` blocks, so what a piece of code can change is
settled statement by statement: one fact per assignment (`Within.modify`), none per state.
-/

set_option autoImplicit false

variable {σ α β : Type}

/-- Every run of `m` takes a state to one that `r` relates it to. -/
structure Within (r : σ → σ → Prop) (m : StateM σ α) : Prop where
  run : ∀ s, r s (m.run s).2

namespace Within

variable {r : σ → σ → Prop}

theorem modify {f : σ → σ} (h : ∀ s, r s (f s)) : Within r (modify f : StateM σ PUnit) := ⟨h⟩

theorem get_bind {f : σ → StateM σ α} (h : ∀ s, Within r (f s)) : Within r (get >>= f) :=
  ⟨fun s => (h s).run s⟩

theorem ite {c : Prop} [Decidable c] {m n : StateM σ α} (hm : Within r m) (hn : Within r n) :
    Within r (if c then m else n) := by
  split
  · exact hm
  · exact hn

variable [IsPreorder σ r]

theorem pure (a : α) : Within r (pure a : StateM σ α) := ⟨fun s => refl s⟩

theorem bind {m : StateM σ α} {f : α → StateM σ β} (hm : Within r m) (hf : ∀ a, Within r (f a)) :
    Within r (m >>= f) :=
  ⟨fun s => IsTrans.trans _ _ _ (hm.run s) ((hf _).run _)⟩

theorem seq {m : StateM σ α} {n : StateM σ β} (hm : Within r m) (hn : Within r n) :
    Within r (m >>= fun _ => n) := hm.bind fun _ => hn

theorem forM {f : α → StateM σ PUnit} (h : ∀ a, Within r (f a)) (l : List α) :
    Within r (l.forM f) := by
  induction l with
  | nil => exact pure _
  | cons a l ih => exact (h a).seq ih

end Within
