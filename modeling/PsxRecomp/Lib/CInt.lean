import Mathlib.Algebra.BigOperators.Group.List.Basic
import Mathlib.Algebra.Order.Ring.Abs
import Mathlib.Logic.Function.Basic
import Mathlib.Tactic.Ring

/-!
# `Lib/CInt.lean` — arithmetic and arrays of C, checked

A result that does not fit its type, or an index outside of its array, is `none`. Code that is written
with these operations and never gives `none` computes what the same code computes over the integers and
over functions.
-/

set_option autoImplicit false

namespace CInt

open List Option

/-- The value is one of a signed type of `w` bits. -/
def Fits (w : Nat) (v : Int) : Prop := -(2 ^ (w - 1)) ≤ v ∧ v < 2 ^ (w - 1)

instance (w : Nat) (v : Int) : Decidable (Fits w v) := inferInstanceAs (Decidable (_ ∧ _))

def fit (w : Nat) (v : Int) : Option Int := if Fits w v then some v else none

section
variable {w : Nat} {v r B : Int}

theorem fit_of_fits (h : Fits w v) : fit w v = some v := if_pos h

theorem fit_eq_some_iff : fit w v = some r ↔ Fits w v ∧ v = r := by
  unfold fit
  split
  · simp [some.injEq, *, true_and]
  · simp [reduceCtorEq, *, false_and]

theorem bind_of_eq {α β : Type} {x : Option α} {a : α} {f : α → Option β} (h : x = some a) :
    (x >>= f) = f a := by
  rw [h]
  rfl

theorem fits_of_le (hB : B < 2 ^ (w - 1)) (h : -B ≤ v ∧ v ≤ B) : Fits w v := ⟨by omega, by omega⟩

theorem mul_bounds {x y a c : Int} (hx : -a ≤ x ∧ x ≤ a) (hy : -c ≤ y ∧ y ≤ c) :
    -(a * c) ≤ x * y ∧ x * y ≤ a * c := by
  have h := Int.mul_le_mul (abs_le.mpr hx) (abs_le.mpr hy) (abs_nonneg _) (by omega)
  rw [← abs_mul] at h
  exact abs_le.mp h

end

/-- The low `w` bits of a result, as the machine has them -/
def wrap (w : Nat) (v : Int) : Int := v.bmod (2 ^ w)

theorem wrap_of_fits {w : Nat} {v : Int} (hw : 0 < w) (h : Fits w v) : wrap w v = v := by
  obtain ⟨k, rfl⟩ : ∃ k, w = k + 1 := ⟨w - 1, by omega⟩
  obtain ⟨hlo, hhi⟩ := h
  simp only [Nat.add_sub_cancel] at hlo hhi
  exact Int.bmod_eq_of_le (by push_cast; omega) (by push_cast; omega)

/-! ## Sums -/

section
variable {ι : Type}

/-- `sum += term`, for the terms of a list -/
def sumOf (w : Nat) (term : ι → Option Int) (l : List ι) : Option Int :=
  l.foldlM (fun sum i => (term i).bind fun p => fit w (sum + p)) 0

theorem length_cons_mul (i : ι) (l : List ι) (B : Int) : (i :: l).length * B = B + l.length * B := by
  rw [length_cons]
  push_cast
  ring

theorem sum_bounds {v : ι → Int} {B : Int} {l : List ι} (hB : ∀ i ∈ l, -B ≤ v i ∧ v i ≤ B) :
    -(l.length * B) ≤ (l.map v).sum ∧ (l.map v).sum ≤ l.length * B := by
  induction l with
  | nil => simp
  | cons i l ih =>
    obtain ⟨hi, hl⟩ := forall_mem_cons.mp hB
    obtain ⟨hlo, hhi⟩ := ih hl
    rw [length_cons_mul, map_cons, sum_cons]
    exact ⟨by omega, by omega⟩

/-- A loop that adds `v i` wherever the sum fits, from `acc` on. -/
theorem foldlM_sum {w : Nat} {step : Int → ι → Option Int} {v : ι → Int} {B acc A : Int} {l : List ι}
    (hstep : ∀ i ∈ l, ∀ acc, Fits w (acc + v i) → step acc i = some (acc + v i))
    (hB : ∀ i ∈ l, -B ≤ v i ∧ v i ≤ B) (hA : -A ≤ acc ∧ acc ≤ A) (hfit : A + l.length * B < 2 ^ (w - 1)) :
    l.foldlM step acc = some (acc + (l.map v).sum) := by
  induction l generalizing acc A with
  | nil =>
    rw [map_nil, sum_nil, add_zero]
    rfl
  | cons i l ih =>
    obtain ⟨hi, hl⟩ := forall_mem_cons.mp hstep
    obtain ⟨hiB, hlB⟩ := forall_mem_cons.mp hB
    have hB₀ : 0 ≤ l.length * B := Int.mul_nonneg (Int.natCast_nonneg _) (by omega)
    rw [length_cons_mul] at hfit
    rw [foldlM_cons, hi acc (fits_of_le (B := A + B) (by omega) ⟨by omega, by omega⟩)]
    exact (ih (A := A + B) hl hlB ⟨by omega, by omega⟩ (by omega)).trans
      (by rw [map_cons, sum_cons, add_assoc])

/-- A sum that is accumulated in a loop -/
theorem sumOf_eq {w : Nat} {term : ι → Option Int} {v : ι → Int} {B : Int} {l : List ι}
    (hterm : ∀ i ∈ l, term i = some (v i)) (hB : ∀ i ∈ l, -B ≤ v i ∧ v i ≤ B)
    (hfit : l.length * B < 2 ^ (w - 1)) : sumOf w term l = some (l.map v).sum := by
  refine (foldlM_sum (w := w) (A := 0) (fun i hi acc hacc => ?_) hB ⟨by decide, by decide⟩ (by omega)).trans
    (by rw [zero_add])
  rw [hterm i hi]
  exact fit_of_fits hacc

end

/-! ## Arrays -/

section
variable {n : Nat} {α ι : Type}

/-- `a[i]` -/
def read (a : Fin n → α) (i : Nat) : Option α := if h : i < n then some (a ⟨i, h⟩) else none

/-- `a[i] = v` -/
def store (a : Fin n → α) (i : Nat) (v : α) : Option (Fin n → α) :=
  if h : i < n then some (Function.update a ⟨i, h⟩ v) else none

theorem read_of_lt {a : Fin n → α} {i : Nat} (h : i < n) : read a i = some (a ⟨i, h⟩) := dif_pos h

theorem store_of_lt {a : Fin n → α} {i : Nat} {v : α} (h : i < n) :
    store a i v = some (Function.update a ⟨i, h⟩ v) := dif_pos h

/-- `a[index i] = value i`, for all `i` of a list -/
def fillAll (index : ι → Nat) (value : ι → Option α) (l : List ι) (a : Fin n → α) :
    Option (Fin n → α) :=
  l.foldlM (fun a i => (value i).bind fun v => store a (index i) v) a

/-- An array that is filled in a loop -/
theorem fillAll_eq {index : ι → Nat} {value : ι → Option α} {l : List ι} {f : Fin n → α}
    (hvalue : ∀ i ∈ l, ∃ h : index i < n, value i = some (f ⟨index i, h⟩))
    (hall : ∀ k : Fin n, ∃ i ∈ l, index i = k.val) (a : Fin n → α) :
    fillAll index value l a = some f := by
  -- what the elements that come later do not fill is there already
  have hrest : ∀ (l : List ι) (a : Fin n → α),
      (∀ i ∈ l, ∃ h : index i < n, value i = some (f ⟨index i, h⟩)) →
      (∀ k : Fin n, a k = f k ∨ ∃ i ∈ l, index i = k.val) → fillAll index value l a = some f := by
    intro l
    induction l with
    | nil =>
      intro a _ hall
      have ha : a = f := by
        funext k
        obtain h | ⟨i, hi, -⟩ := hall k
        · exact h
        · cases hi
      rw [ha]
      rfl
    | cons i l ih =>
      intro a hvalue hall
      obtain ⟨⟨hlt, hv⟩, hl⟩ := forall_mem_cons.mp hvalue
      simp only [fillAll, foldlM_cons, hv, store_of_lt hlt, bind_eq_bind, bind_some]
      refine ih _ hl fun k => ?_
      by_cases hk : k = ⟨index i, hlt⟩
      · left
        rw [hk, Function.update_self]
      · rw [Function.update_of_ne hk]
        obtain h | ⟨j, hj, hjk⟩ := hall k
        · exact .inl h
        · obtain rfl | hj := mem_cons.mp hj
          · exact absurd (Fin.ext hjk.symm) hk
          · exact .inr ⟨j, hj, hjk⟩
  exact hrest l a hvalue fun k => .inr (hall k)

theorem foldlM_append {step : List α → ι → Option (List α)} {g : ι → List α}
    (h : ∀ out i, step out i = some (out ++ g i)) (l : List ι) (out : List α) :
    l.foldlM step out = some (out ++ l.flatMap g) := by
  induction l generalizing out with
  | nil =>
    rw [flatMap_nil, append_nil]
    rfl
  | cons i l ih => rw [foldlM_cons, bind_of_eq (h out i), ih, flatMap_cons, List.append_assoc]

end

end CInt
