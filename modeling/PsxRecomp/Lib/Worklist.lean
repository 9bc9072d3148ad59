import Mathlib.Data.Set.Card
import PsxRecomp.Lib.Runs

/-!
# `Lib/Worklist.lean` — a walk with a queue that also marks nodes it does not walk

A node taken from the queue is walked if it is in bounds and was not seen yet. Walking a node puts nodes
into the queue and marks others as seen, which are then never walked. Walking may also fail, and then
the whole walk has no result.
-/

set_option autoImplicit false

namespace Worklist

open List Option

variable {α : Type} [DecidableEq α]

structure Expansion (α : Type) where
  mark : List α
  push : List α

structure State (α : Type) where
  visited : List α
  work : List α
  /-- the nodes that were walked -/
  walked : List α
  deriving DecidableEq, Repr

def State.init (entry : α) : State α := ⟨[], [entry], []⟩

section
variable (inBounds : α → Bool) (expand : α → Option (Expansion α))

def State.visit (s : State α) (a : α) (work : List α) (e : Expansion α) : State α :=
  ⟨e.mark ++ a :: s.visited, work ++ e.push, a :: s.walked⟩

/-- Take a node from the queue. With an empty queue nothing changes. -/
def step (s : State α) : Option (State α) :=
  match s.work with
  | [] => some s
  | a :: work =>
    if a ∈ s.visited ∨ inBounds a = false then some { s with work }
    else (expand a).map (s.visit a work)

def open_ (visited : List α) : Set α := {a | inBounds a = true ∧ a ∉ visited}

omit [DecidableEq α] in
theorem ncard_open_visit [Finite α] {s : State α} {a : α} (work : List α) (e : Expansion α)
    (ha : a ∉ s.visited) (hin : inBounds a = true) :
    (open_ inBounds (s.visit a work e).visited).ncard < (open_ inBounds s.visited).ncard := by
  refine Set.ncard_lt_ncard ((Set.ssubset_iff_of_subset ?_).mpr ⟨a, ⟨hin, ha⟩, ?_⟩)
  · rintro x ⟨hxin, hxv⟩
    exact ⟨hxin, fun hmem => hxv (mem_append_right _ (mem_cons_of_mem _ hmem))⟩
  · rintro ⟨-, hv⟩
    exact hv (mem_append_right _ mem_cons_self)

def walk [Finite α] (s : State α) : Option (State α) :=
  match _hw : s.work with
  | [] => some s
  | a :: work =>
    if _h : a ∈ s.visited ∨ inBounds a = false then walk { s with work }
    else
      match expand a with
      | none => none
      | some e => walk (s.visit a work e)
termination_by ((open_ inBounds s.visited).ncard, s.work.length)
decreasing_by
  · rw [_hw]
    exact Prod.Lex.right _ (Nat.lt_succ_self _)
  · obtain ⟨hnew, hin⟩ := not_or.mp _h
    exact Prod.Lex.left _ _ (ncard_open_visit inBounds work e hnew (by simpa using hin))

variable {inBounds expand} [Finite α] {s r : State α}

theorem walk_nil (h : s.work = []) : walk inBounds expand s = some s := by
  rw [walk]
  split
  · rfl
  · rename_i hw
    rw [h] at hw
    cases hw

theorem walk_step (h : s.work ≠ []) :
    walk inBounds expand s = (step inBounds expand s).bind (walk inBounds expand) := by
  rw [walk, step]
  split
  · rename_i hw
    exact absurd hw h
  · rename_i a work hw
    simp only [hw]
    by_cases hskip : a ∈ s.visited ∨ inBounds a = false
    · rw [dif_pos hskip, if_pos hskip, bind_some]
    · rw [dif_neg hskip, if_neg hskip]
      cases expand a <;> rfl

theorem walk_of_steps (n : Nat) (h : (fun s => s.bind (step inBounds expand))^[n] (some s) = some r)
    (hr : r.work = []) : walk inBounds expand s = some r := by
  induction n generalizing s with
  | zero =>
    cases h
    exact walk_nil hr
  | succ n ih =>
    rw [Function.iterate_succ_apply, bind_some] at h
    by_cases hs : s.work = []
    · have hstep : step inBounds expand s = some s := by rw [step, hs]
      rw [hstep] at h
      exact ih h
    · rw [walk_step hs]
      cases hstep : step inBounds expand s with
      | none =>
        have hnone : (fun s : Option (State α) => s.bind (step inBounds expand))^[n] none = none :=
          Function.iterate_fixed rfl n
        rw [hstep, hnone] at h
        cases h
      | some s' =>
        rw [hstep] at h
        exact ih h

/-! ## What a step can do -/

omit [Finite α] in
theorem step_cases {s' : State α} (h : step inBounds expand s = some s') :
    (s.work = [] ∧ s' = s) ∨
    (∃ a work, s.work = a :: work ∧ (a ∈ s.visited ∨ inBounds a = false) ∧ s' = { s with work }) ∨
    ∃ a work e, s.work = a :: work ∧ a ∉ s.visited ∧ inBounds a = true ∧ expand a = some e ∧
      s' = s.visit a work e := by
  unfold step at h
  split at h
  · rename_i hw
    exact .inl ⟨hw, (some.inj h).symm⟩
  · rename_i a work hw
    split_ifs at h with hskip
    · exact .inr (.inl ⟨a, work, hw, hskip, (some.inj h).symm⟩)
    · obtain ⟨hnew, hin⟩ := not_or.mp hskip
      obtain ⟨e, he, hs⟩ := map_eq_some_iff.mp h
      exact .inr (.inr ⟨a, work, e, hw, hnew, by simpa using hin, he, hs.symm⟩)

theorem walk_invariant {I : State α → Prop}
    (hstep : ∀ s s', I s → step inBounds expand s = some s' → I s') (h : I s)
    (hw : walk inBounds expand s = some r) : I r ∧ r.work = [] := by
  fun_induction walk inBounds expand s with
  | case1 s hnil =>
    cases hw
    exact ⟨h, hnil⟩
  | case2 s a work hs hskip ih =>
    refine ih (hstep s _ h ?_) hw
    rw [step, hs]
    exact if_pos hskip
  | case3 => cases hw
  | case4 s a work hs hskip e he ih =>
    refine ih (hstep s _ h ?_) hw
    rw [step, hs]
    simp [if_neg hskip, he, map_some]

theorem walk_isSome (h : ∀ a, inBounds a = true → (expand a).isSome = true) :
    (walk inBounds expand s).isSome = true := by
  fun_induction walk inBounds expand s with
  | case1 => rfl
  | case2 s a work hs hskip ih => exact ih
  | case3 s a work hs hskip he =>
    have hsome := h a (by simpa using (not_or.mp hskip).2)
    rw [he] at hsome
    cases hsome
  | case4 s a work hs hskip e he ih => exact ih

omit [Finite α] in
/-- The books of a walk from `entry`: a node is seen because it was walked or marked, and what a walked
node asked for was seen or is in the queue. -/
structure Followed (inBounds : α → Bool) (expand : α → Option (Expansion α)) (entry : α)
    (s : State α) : Prop where
  entry : inBounds entry = true → entry ∈ s.visited ∨ entry ∈ s.work
  seen : ∀ a ∈ s.visited, a ∈ s.walked ∨ ∃ t ∈ s.walked, ∃ e, expand t = some e ∧ a ∈ e.mark
  walked : ∀ a ∈ s.walked, a ∈ s.visited ∧ inBounds a = true ∧ ∃ e, expand a = some e ∧
    (∀ m ∈ e.mark, m ∈ s.visited) ∧
    ∀ b ∈ e.push, inBounds b = true → b ∈ s.visited ∨ b ∈ s.work

omit [Finite α] [DecidableEq α] in
theorem followed_init (entry : α) : Followed inBounds expand entry (State.init entry) where
  entry _ := .inr mem_cons_self
  seen _ ha := absurd ha not_mem_nil
  walked _ ha := absurd ha not_mem_nil

omit [Finite α] in
theorem Followed.step {entry : α} {s' : State α} (h : Followed inBounds expand entry s)
    (hs : step inBounds expand s = some s') : Followed inBounds expand entry s' := by
  obtain ⟨-, rfl⟩ | ⟨a, work, hw, hskip, rfl⟩ | ⟨a, work, e, hw, hnew, hin, he, rfl⟩ := step_cases hs
  · exact h
  · -- what is dropped is out of bounds or was seen
    have hdrop : ∀ b, inBounds b = true → b ∈ s.visited ∨ b ∈ s.work → b ∈ s.visited ∨ b ∈ work := by
      intro b hb hor
      rcases hor with hv | hq
      · exact .inl hv
      · rw [hw] at hq
        rcases mem_cons.mp hq with rfl | hq
        · exact .inl (hskip.resolve_right (by simp [hb]))
        · exact .inr hq
    refine ⟨fun hb => hdrop _ hb (h.entry hb), h.seen, fun x hx => ?_⟩
    obtain ⟨hv, hxin, e, he, hmark, hpush⟩ := h.walked x hx
    exact ⟨hv, hxin, e, he, hmark, fun b hb hbin => hdrop b hbin (hpush b hb hbin)⟩
  · have hvis : ∀ b, b ∈ s.visited → b ∈ (s.visit a work e).visited := fun b hb =>
      mem_append_right _ (mem_cons_of_mem _ hb)
    have hself : a ∈ (s.visit a work e).visited := mem_append_right _ mem_cons_self
    have hkeep : ∀ b, b ∈ s.visited ∨ b ∈ s.work →
        b ∈ (s.visit a work e).visited ∨ b ∈ (s.visit a work e).work := by
      intro b hor
      rcases hor with hv | hq
      · exact .inl (hvis b hv)
      · rw [hw] at hq
        rcases mem_cons.mp hq with rfl | hq
        · exact .inl hself
        · exact .inr (mem_append_left _ hq)
    refine ⟨fun hb => hkeep _ (h.entry hb), fun x hx => ?_, fun x hx => ?_⟩
    · rcases mem_append.mp hx with hx | hx
      · exact .inr ⟨a, mem_cons_self, e, he, hx⟩
      · rcases mem_cons.mp hx with rfl | hx
        · exact .inl mem_cons_self
        · rcases h.seen x hx with hx | ⟨t, ht, hmark⟩
          · exact .inl (mem_cons_of_mem _ hx)
          · exact .inr ⟨t, mem_cons_of_mem _ ht, hmark⟩
    · rcases mem_cons.mp hx with rfl | hx
      · exact ⟨hself, hin, e, he, fun m hm => mem_append_left _ hm,
          fun b hb _ => .inr (mem_append_right _ hb)⟩
      · obtain ⟨hv, hxin, e', he', hmark, hpush⟩ := h.walked x hx
        exact ⟨hvis x hv, hxin, e', he', fun m hm => hvis m (hmark m hm),
          fun b hb hbin => hkeep b (hpush b hb hbin)⟩

/-- A node that was seen and not walked was marked by one that was. -/
def Marked (Slot : α → α → Prop) (s : State α) : Prop :=
  ∀ x ∈ s.visited, x ∉ s.walked → ∃ t ∈ s.walked, Slot t x

omit [Finite α] in
theorem Marked.step {Slot : α → α → Prop} {s' : State α} (h : Marked Slot s)
    (hs : Worklist.step inBounds expand s = some s')
    (hok : ∀ a work e, s.work = a :: work → a ∉ s.visited → inBounds a = true → expand a = some e →
      ∀ m ∈ e.mark, m ∉ s.visited → Slot a m) : Marked Slot s' := by
  obtain ⟨-, rfl⟩ | ⟨a, work, hw, -, rfl⟩ | ⟨a, work, e, hw, hnew, hin, he, rfl⟩ := step_cases hs
  · exact h
  · exact h
  · intro x hx hnot
    have hold : x ∈ s.visited → ∃ t ∈ (s.visit a work e).walked, Slot t x := by
      intro hx
      obtain ⟨t, ht, hslot⟩ := h x hx fun hw => hnot (mem_cons_of_mem _ hw)
      exact ⟨t, mem_cons_of_mem _ ht, hslot⟩
    rcases mem_append.mp hx with hm | hx
    · by_cases hv : x ∈ s.visited
      · exact hold hv
      · exact ⟨a, mem_cons_self, hok a work e hw hnew hin he x hm hv⟩
    · rcases mem_cons.mp hx with rfl | hx
      · exact absurd mem_cons_self hnot
      · exact hold hx

/-- What the entry has and a node passes on to what it pushes, every node seen has, or the one that marked it. -/
theorem walk_sound {P : α → Prop} {entry : α} (hentry : inBounds entry = true → P entry)
    (hpush : ∀ a e, P a → expand a = some e → ∀ b ∈ e.push, inBounds b = true → P b)
    (hr : walk inBounds expand (.init entry) = some r) :
    ∀ a ∈ r.visited, P a ∨ ∃ t e, P t ∧ expand t = some e ∧ a ∈ e.mark := by
  refine (walk_invariant (I := fun s => (∀ a ∈ s.work, inBounds a = true → P a) ∧
    ∀ a ∈ s.visited, P a ∨ ∃ t e, P t ∧ expand t = some e ∧ a ∈ e.mark) ?_
    ⟨by simpa [State.init] using hentry, by simp [State.init]⟩ hr).1.2
  rintro s s' ⟨hwork, hseen⟩ hs
  obtain ⟨-, rfl⟩ | ⟨a, work, hw, -, rfl⟩ | ⟨a, work, e, hw, -, hin, he, rfl⟩ := step_cases hs
  · exact ⟨hwork, hseen⟩
  · exact ⟨fun b hb => hwork b (hw ▸ mem_cons_of_mem _ hb), hseen⟩
  · have ha : P a := hwork a (hw ▸ mem_cons_self) hin
    grind [State.visit]

end

end Worklist
