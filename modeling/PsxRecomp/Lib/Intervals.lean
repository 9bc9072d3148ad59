import Mathlib.Data.List.Sort

/-!
# `Lib/Intervals.lean` — coalescing half-open intervals

Intervals in the order of their starts are joined from left to right: one that starts inside the last
joined interval or at its end extends it, any other one is appended.
-/

set_option autoImplicit false

namespace Intervals

open List

variable {α : Type} [LinearOrder α]

def Covered (x : α) (l : List (α × α)) : Prop := ∃ r ∈ l, r.1 ≤ x ∧ x < r.2

@[simp] theorem covered_nil (x : α) : ¬ Covered x [] := by simp [Covered]

@[simp] theorem covered_cons {x : α} {r : α × α} {l : List (α × α)} :
    Covered x (r :: l) ↔ (r.1 ≤ x ∧ x < r.2) ∨ Covered x l := by
  simp [Covered]

/-- Pairs in the order of `std::pair` -/
def Le (p q : α × α) : Prop := p.1 < q.1 ∨ (p.1 = q.1 ∧ p.2 ≤ q.2)

instance : DecidableRel (Le (α := α)) := fun _ _ => inferInstanceAs (Decidable (_ ∨ _))

instance : Std.Total (Le (α := α)) where
  total p q := by
    rcases lt_trichotomy p.1 q.1 with h | h | h
    · exact .inl (.inl h)
    · exact (le_total p.2 q.2).imp (fun h' => .inr ⟨h, h'⟩) fun h' => .inr ⟨h.symm, h'⟩
    · exact .inr (.inl h)

instance : IsTrans (α × α) Le where
  trans p q r := by
    rintro (h | ⟨h, h'⟩) (k | ⟨k, k'⟩)
    · exact .inl (h.trans k)
    · exact .inl (h.trans_eq k)
    · exact .inl (h.trans_lt k)
    · exact .inr ⟨h.trans k, h'.trans k'⟩

def push (acc : List (α × α)) (r : α × α) : List (α × α) :=
  match acc with
  | [] => [r]
  | last :: rest =>
    if r.1 ≤ last.2 then
      if last.2 < r.2 then (last.1, r.2) :: rest else last :: rest
    else r :: last :: rest

def coalesce (l : List (α × α)) : List (α × α) := ((l.insertionSort Le).foldl push []).reverse

/-- Non-empty intervals with gaps between them, last first -/
structure Apart (acc : List (α × α)) : Prop where
  gaps : acc.Pairwise fun p q => q.2 < p.1
  nonempty : ∀ p ∈ acc, p.1 < p.2

variable {acc : List (α × α)} {r : α × α} {x : α}

theorem push_apart (h : Apart acc) (hr : r.1 < r.2) : Apart (push acc r) := by
  cases acc with
  | nil => exact ⟨pairwise_singleton _ _, by simpa [push] using hr⟩
  | cons last rest =>
    obtain ⟨hgaps, hne⟩ := h
    obtain ⟨hlast, hrest⟩ := pairwise_cons.mp hgaps
    have hne_rest : ∀ p ∈ rest, p.1 < p.2 := fun p hp => hne p (mem_cons_of_mem _ hp)
    have hne_last := hne last mem_cons_self
    simp only [push]
    split_ifs with hin hlonger
    · refine ⟨pairwise_cons.mpr ⟨hlast, hrest⟩, ?_⟩
      intro p hp
      rcases mem_cons.mp hp with rfl | hp
      · exact hne_last.trans hlonger
      · exact hne_rest p hp
    · exact ⟨hgaps, hne⟩
    · refine ⟨pairwise_cons.mpr ⟨fun p hp => ?_, hgaps⟩, ?_⟩
      · rcases mem_cons.mp hp with rfl | hp
        · exact lt_of_not_ge hin
        · exact ((hlast p hp).trans hne_last).trans (lt_of_not_ge hin)
      · intro p hp
        rcases mem_cons.mp hp with rfl | hp
        · exact hr
        · exact hne p hp

theorem covered_push (hr : ∀ p ∈ acc.head?, p.1 ≤ r.1) :
    Covered x (push acc r) ↔ Covered x acc ∨ (r.1 ≤ x ∧ x < r.2) := by
  cases acc with
  | nil => simp [push]
  | cons last rest =>
    have hle : last.1 ≤ r.1 := hr last rfl
    simp only [push]
    split_ifs with hin hlonger
    · simp only [covered_cons]
      constructor
      · rintro (⟨hlo, hhi⟩ | hrest)
        · rcases lt_or_ge x last.2 with hx | hx
          · exact .inl (.inl ⟨hlo, hx⟩)
          · exact .inr ⟨hin.trans hx, hhi⟩
        · exact .inl (.inr hrest)
      · rintro ((⟨hlo, hhi⟩ | hrest) | ⟨hlo, hhi⟩)
        · exact .inl ⟨hlo, hhi.trans hlonger⟩
        · exact .inr hrest
        · exact .inl ⟨hle.trans hlo, hhi⟩
    · refine (or_iff_left_of_imp ?_).symm
      rintro ⟨hlo, hhi⟩
      exact covered_cons.mpr (.inl ⟨hle.trans hlo, hhi.trans_le (le_of_not_gt hlonger)⟩)
    · rw [covered_cons, or_comm]

theorem head_push (hr : ∀ p ∈ acc.head?, p.1 ≤ r.1) : ∀ p ∈ (push acc r).head?, p.1 ≤ r.1 := by
  cases acc with
  | nil => simp [push]
  | cons last rest =>
    have hle : last.1 ≤ r.1 := hr last rfl
    simp only [push]
    split_ifs <;> simp [hle]

theorem foldl_push (l : List (α × α)) (hl : l.Pairwise Le) (hne : ∀ p ∈ l, p.1 < p.2)
    (hacc : Apart acc) (hhead : ∀ p ∈ acc.head?, ∀ q ∈ l, p.1 ≤ q.1) :
    Apart (l.foldl push acc) ∧ ∀ x, Covered x (l.foldl push acc) ↔ Covered x acc ∨ Covered x l := by
  induction l generalizing acc with
  | nil => exact ⟨hacc, by simp⟩
  | cons r l ih =>
    obtain ⟨hr, hl⟩ := pairwise_cons.mp hl
    have hlast : ∀ p ∈ acc.head?, p.1 ≤ r.1 := fun p hp => hhead p hp r mem_cons_self
    have hfst : ∀ q ∈ l, r.1 ≤ q.1 := fun q hq => (hr q hq).elim le_of_lt fun h => h.1.le
    obtain ⟨hapart, hcov⟩ := ih hl (fun p hp => hne p (mem_cons_of_mem _ hp))
      (push_apart hacc (hne r mem_cons_self))
      (fun p hp q hq => (head_push hlast p hp).trans (hfst q hq))
    refine ⟨hapart, fun x => ?_⟩
    rw [foldl_cons, hcov x, covered_push hlast, covered_cons, or_assoc]

variable {l : List (α × α)}

theorem coalesce_spec (hne : ∀ p ∈ l, p.1 < p.2) : Apart ((l.insertionSort Le).foldl push []) ∧
    ∀ x, Covered x ((l.insertionSort Le).foldl push []) ↔ Covered x l := by
  have hempty : Apart ([] : List (α × α)) := ⟨List.Pairwise.nil, by simp⟩
  obtain ⟨hapart, hcov⟩ := foldl_push (l.insertionSort Le) (pairwise_insertionSort Le l)
    (fun p hp => hne p ((mem_insertionSort Le).mp hp)) hempty (by simp)
  refine ⟨hapart, fun x => (hcov x).trans ?_⟩
  simp [Covered]

/-- The intervals of the result are in order with a gap before each. -/
theorem coalesce_pairwise (hne : ∀ p ∈ l, p.1 < p.2) :
    (coalesce l).Pairwise fun p q => p.2 < q.1 :=
  List.pairwise_reverse.mpr (coalesce_spec hne).1.gaps

theorem coalesce_nonempty (hne : ∀ p ∈ l, p.1 < p.2) : ∀ p ∈ coalesce l, p.1 < p.2 :=
  fun p hp => (coalesce_spec hne).1.nonempty p (List.mem_reverse.mp hp)

/-- The result covers what was covered. -/
theorem covered_coalesce (hne : ∀ p ∈ l, p.1 < p.2) : Covered x (coalesce l) ↔ Covered x l := by
  rw [← (coalesce_spec hne).2 x]
  simp [Covered, coalesce]

end Intervals
