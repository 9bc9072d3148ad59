import Mathlib.Data.List.Sort
import Mathlib.Data.List.Dedup

/-!
# `Lib/Cuts.lean` — cutting a range at a list of points

A range `[a, e)` of a linear order is cut at finitely many points into consecutive half-open pieces.
`points` puts the points in order, `pieces` pairs each with the next one.
-/

set_option autoImplicit false

namespace Cuts

open List

section
variable {α : Type}

/-- The pieces of the range that starts at the first point and ends before `e`. -/
def pieces : List α → α → List (α × α)
  | [], _ => []
  | [a], e => [(a, e)]
  | a :: b :: l, e => (a, b) :: pieces (b :: l) e

variable {l : List α} {a b e x : α} {p q : α × α}

theorem map_fst_pieces (l : List α) (e : α) : (pieces l e).map Prod.fst = l := by
  induction l, e using pieces.induct with
  | case1 => rfl
  | case2 => rfl
  | case3 a b l e ih => rw [pieces, map_cons, ih]

/-- A piece starts at a point. -/
theorem fst_mem (h : p ∈ pieces l e) : p.1 ∈ l := by
  have hfst := mem_map_of_mem (f := Prod.fst) h
  rwa [map_fst_pieces] at hfst

theorem snd_mem (h : p ∈ pieces l e) : p.2 ∈ l ∨ p.2 = e := by
  induction l, e using pieces.induct with
  | case1 => cases h
  | case2 a e =>
    simp only [pieces, mem_singleton] at h
    simp [h]
  | case3 a b l e ih =>
    rcases mem_cons.mp h with rfl | h
    · simp
    · exact (ih h).imp (mem_cons_of_mem _) id

/-- Every point starts a piece. -/
theorem exists_piece (h : a ∈ l) : ∃ b, (a, b) ∈ pieces l e := by
  rw [← map_fst_pieces l e] at h
  obtain ⟨⟨_, b⟩, hp, rfl⟩ := mem_map.mp h
  exact ⟨b, hp⟩

/-- Pieces follow each other. -/
theorem pieces_chain (l : List α) (e : α) : (pieces l e).IsChain (fun p q => p.2 = q.1) := by
  induction l, e using pieces.induct with
  | case1 => exact .nil
  | case2 => exact .singleton _
  | case3 a b l e ih =>
    cases l with
    | nil => exact .cons_cons rfl ih
    | cons c l => exact .cons_cons rfl ih

end

section
variable {α : Type} [LinearOrder α]

def points (l : List α) : List α := (l.insertionSort (· ≤ ·)).dedup

@[simp] theorem mem_points {l : List α} {a : α} : a ∈ points l ↔ a ∈ l := by
  simp [points]

theorem points_pairwise (l : List α) : (points l).Pairwise (· < ·) := by
  have hle : (points l).Pairwise (· ≤ ·) :=
    (pairwise_insertionSort (· ≤ ·) l).sublist (dedup_sublist _)
  have hne : (points l).Pairwise (· ≠ ·) := nodup_dedup _
  exact (hle.and hne).imp fun h => lt_of_le_of_ne h.1 h.2

variable {l : List α} {a e x : α} {p q : α × α}
variable (hl : l.Pairwise (· < ·)) (he : ∀ a ∈ l, a < e)
include hl he

theorem fst_lt_snd (h : p ∈ pieces l e) : p.1 < p.2 := by
  induction l, e using pieces.induct with
  | case1 => cases h
  | case2 a e =>
    simp only [pieces, mem_singleton] at h
    subst h
    exact he a (by simp)
  | case3 a b l e ih =>
    rw [pairwise_cons] at hl
    rcases mem_cons.mp h with rfl | h
    · exact hl.1 b mem_cons_self
    · exact ih hl.2 (fun x hx => he x (mem_cons_of_mem _ hx)) h

/-- No point lies inside a piece. -/
theorem le_of_mem (h : p ∈ pieces l e) (hx : x ∈ l) (hpx : p.1 < x) : p.2 ≤ x := by
  induction l, e using pieces.induct with
  | case1 => cases h
  | case2 a e =>
    simp only [pieces, mem_singleton] at h hx
    subst h hx
    exact absurd hpx (lt_irrefl _)
  | case3 a b l e ih =>
    rw [pairwise_cons] at hl
    rcases mem_cons.mp h with rfl | h
    · rcases mem_cons.mp hx with rfl | hx
      · exact absurd hpx (lt_irrefl _)
      · rcases mem_cons.mp hx with rfl | hx
        · exact le_refl _
        · exact le_of_lt ((pairwise_cons.mp hl.2).1 x hx)
    · have hp := fst_mem h
      rcases mem_cons.mp hx with rfl | hx
      · exact absurd (hl.1 _ hp) (not_lt_of_gt hpx)
      · exact ih hl.2 (fun y hy => he y (mem_cons_of_mem _ hy)) h hx

/-- The pieces cover the range. -/
theorem exists_covers (ha : l.head? = some a) (hax : a ≤ x) (hxe : x < e) :
    ∃ p ∈ pieces l e, p.1 ≤ x ∧ x < p.2 := by
  induction l, e using pieces.induct generalizing a with
  | case1 => cases ha
  | case2 a' e =>
    cases ha
    exact ⟨(a', e), by simp [pieces], hax, hxe⟩
  | case3 a' b l e ih =>
    cases ha
    by_cases hxb : x < b
    · exact ⟨(a', b), mem_cons_self, hax, hxb⟩
    · obtain ⟨p, hp, hpx⟩ := ih (pairwise_cons.mp hl).2
        (fun y hy => he y (mem_cons_of_mem _ hy)) rfl (le_of_not_gt hxb) hxe
      exact ⟨p, mem_cons_of_mem _ hp, hpx⟩

theorem pieces_pairwise : (pieces l e).Pairwise fun p q => p.2 ≤ q.1 := by
  have hfst : (pieces l e).Pairwise fun p q => p.1 < q.1 := by
    rw [← pairwise_map (f := Prod.fst) (R := (· < ·)), map_fst_pieces]
    exact hl
  exact hfst.imp_of_mem fun hp hq hlt => le_of_mem hl he hp (fst_mem hq) hlt

theorem snd_le_snd (hp : p ∈ pieces l e) (hq : q ∈ pieces l e) (h : p.1 = q.1) : p.2 ≤ q.2 := by
  have hlt := fst_lt_snd hl he hq
  rcases snd_mem hq with hmem | hend
  · exact le_of_mem hl he hp hmem (h ▸ hlt)
  · rcases snd_mem hp with hmem | hend'
    · exact hend ▸ (he _ hmem).le
    · exact (hend'.trans hend.symm).le

/-- Pieces do not overlap. -/
theorem eq_of_covers (hp : p ∈ pieces l e) (hq : q ∈ pieces l e) (hpx : p.1 ≤ x ∧ x < p.2)
    (hqx : q.1 ≤ x ∧ x < q.2) : p = q := by
  rcases lt_trichotomy p.1 q.1 with h | h | h
  · exact absurd (lt_of_lt_of_le hpx.2 ((le_of_mem hl he hp (fst_mem hq) h).trans hqx.1))
      (lt_irrefl _)
  · exact Prod.ext h ((snd_le_snd hl he hp hq h).antisymm (snd_le_snd hl he hq hp h.symm))
  · exact absurd (lt_of_lt_of_le hqx.2 ((le_of_mem hl he hq (fst_mem hp) h).trans hpx.1))
      (lt_irrefl _)

end

end Cuts
