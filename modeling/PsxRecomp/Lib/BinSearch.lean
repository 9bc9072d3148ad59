import Mathlib.Order.Lattice

/-!
# `Lib/BinSearch.lean` — binary search with inclusive bounds

The loop `while (lo <= hi)` over signed bounds, on keys `a 0, a 1, …` that need not be in order.
-/

set_option autoImplicit false

namespace BinSearch

section
variable {α : Type} [LinearOrder α] (a : Nat → α)

def search (key : α) : Nat → Int → Int → Option Nat
  | 0, _, _ => none
  | fuel + 1, lo, hi =>
    if lo ≤ hi then
      let mid := (lo + hi) / 2
      if a mid.toNat = key then some mid.toNat
      else if a mid.toNat < key then search key fuel (mid + 1) hi
      else search key fuel lo (mid - 1)
    else none

/-- The keys from `lo` to `hi` increase. -/
def Increasing (lo hi : Int) : Prop :=
  ∀ i j : Nat, lo ≤ i → i < j → (j : Int) ≤ hi → a i < a j

/-- Every index from `lo` to `hi` is what the search returns for its key. -/
def FindsEach (fuel : Nat) (lo hi : Int) : Prop :=
  ∀ i : Nat, lo ≤ i → (i : Int) ≤ hi → search a (a i) fuel lo hi = some i

variable {a} {key : α} {fuel : Nat} {lo hi : Int} {i : Nat}

/-- What the search returns is an index of the key. -/
theorem search_sound (hlo : 0 ≤ lo) (h : search a key fuel lo hi = some i) :
    lo ≤ i ∧ (i : Int) ≤ hi ∧ a i = key := by
  induction fuel generalizing lo hi with
  | zero => cases h
  | succ fuel ih =>
    simp only [search] at h
    split_ifs at h with hle heq hlt
    · cases h
      exact ⟨by omega, by omega, heq⟩
    · obtain ⟨h₁, h₂, h₃⟩ := ih (by omega) h
      exact ⟨by omega, h₂, h₃⟩
    · obtain ⟨h₁, h₂, h₃⟩ := ih hlo h
      exact ⟨h₁, by omega, h₃⟩

theorem findsEach_succ {mid : Int} (hm : mid = (lo + hi) / 2) (hlo : 0 ≤ lo) (hle : lo ≤ hi) :
    FindsEach a (fuel + 1) lo hi ↔
      FindsEach a fuel lo (mid - 1) ∧ FindsEach a fuel (mid + 1) hi ∧
        (∀ i : Nat, lo ≤ i → (i : Int) < mid → a i < a mid.toNat) ∧
        ∀ i : Nat, mid < i → (i : Int) ≤ hi → a mid.toNat < a i := by
  have hround : ∀ key, search a key (fuel + 1) lo hi =
      if a mid.toNat = key then some mid.toNat
      else if a mid.toNat < key then search a key fuel (mid + 1) hi
      else search a key fuel lo (mid - 1) := by
    intro key
    simp [search, if_pos hle, hm]
  constructor
  · intro h
    -- the search for the key at `i` goes the way of `i`, or it would return another index
    have hleft : ∀ i : Nat, lo ≤ i → (i : Int) < mid → a i < a mid.toNat := by
      intro i hi₁ hi₂
      have hf := h i hi₁ (by omega)
      rw [hround] at hf
      split_ifs at hf with heq hlt
      · cases hf
        omega
      · have := (search_sound (by omega) hf).1
        omega
      · exact lt_of_le_of_ne (le_of_not_gt hlt) (Ne.symm heq)
    have hright : ∀ i : Nat, mid < i → (i : Int) ≤ hi → a mid.toNat < a i := by
      intro i hi₁ hi₂
      have hf := h i (by omega) hi₂
      rw [hround] at hf
      split_ifs at hf with heq hlt
      · cases hf
        omega
      · exact hlt
      · have := (search_sound hlo hf).2.1
        omega
    refine ⟨?_, ?_, hleft, hright⟩
    · intro i hi₁ hi₂
      have hf := h i hi₁ (by omega)
      have hlt := hleft i hi₁ (by omega)
      rw [hround, if_neg hlt.ne', if_neg hlt.not_gt] at hf
      exact hf
    · intro i hi₁ hi₂
      have hf := h i (by omega) hi₂
      have hlt := hright i (by omega) hi₂
      rw [hround, if_neg hlt.ne, if_pos hlt] at hf
      exact hf
  · rintro ⟨hl, hr, hleft, hright⟩ i hi₁ hi₂
    rw [hround]
    obtain hlt | heq | hgt : (i : Int) < mid ∨ (i : Int) = mid ∨ mid < i := by omega
    · have := hleft i hi₁ hlt
      rw [if_neg this.ne', if_neg this.not_gt]
      exact hl i hi₁ (by omega)
    · have : mid.toNat = i := by omega
      rw [this, if_pos rfl]
    · have := hright i hgt hi₂
      rw [if_neg this.ne, if_pos this]
      exact hr i (by omega) hi₂

/-- It returns every index for the key there just when the keys increase strictly: a key out of order,
or a second copy of one, is a key that the search does not reach. -/
theorem findsEach_iff (hlo : 0 ≤ lo) (hfuel : hi + 1 - lo ≤ fuel) :
    FindsEach a fuel lo hi ↔ Increasing a lo hi := by
  induction fuel generalizing lo hi with
  | zero => exact ⟨fun _ i j h₁ h₂ h₃ => by omega, fun _ i h₁ h₂ => by omega⟩
  | succ fuel ih =>
    by_cases hle : lo ≤ hi
    · obtain ⟨mid, hm⟩ : ∃ mid, mid = (lo + hi) / 2 := ⟨_, rfl⟩
      rw [findsEach_succ hm hlo hle, ih hlo (by omega), ih (by omega) (by omega)]
      constructor
      · rintro ⟨hl, hr, hleft, hright⟩ i j hi₁ hij hj
        by_cases hjm : (j : Int) < mid
        · exact hl i j hi₁ hij (by omega)
        by_cases him : mid < i
        · exact hr i j (by omega) hij hj
        -- `i` and `j` are on the two sides of the middle, or one of them is the middle
        have hi' : i = mid.toNat ∨ a i < a mid.toNat := by
          obtain heq | hlt : (i : Int) = mid ∨ (i : Int) < mid := by omega
          · exact .inl (by omega)
          · exact .inr (hleft i hi₁ hlt)
        have hj' : j = mid.toNat ∨ a mid.toNat < a j := by
          obtain heq | hlt : (j : Int) = mid ∨ mid < j := by omega
          · exact .inl (by omega)
          · exact .inr (hright j hlt hj)
        rcases hi' with rfl | hi' <;> rcases hj' with rfl | hj'
        · omega
        · exact hj'
        · exact hi'
        · exact hi'.trans hj'
      · intro h
        refine ⟨fun i j h₁ h₂ h₃ => h i j h₁ h₂ (by omega),
          fun i j h₁ h₂ h₃ => h i j (by omega) h₂ h₃, fun i h₁ h₂ => ?_, fun i h₁ h₂ => ?_⟩
        · exact h _ _ h₁ (by omega) (by omega)
        · exact h _ _ (by omega) (by omega) h₂
    · exact ⟨fun _ i j h₁ h₂ h₃ => by omega, fun _ i h₁ h₂ => by omega⟩

end

end BinSearch
