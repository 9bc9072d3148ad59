import Mathlib.Algebra.Order.Group.Int

/-!
# `Lib/Countdown.lean` — a machine that waits for its next event

Between events the machine only counts down; `next` says how long until which event. `pace` lets a
stretch of time pass and fires what falls strictly inside it, at most so many events. An event due
exactly at the end of the stretch is left for the next one.
-/

set_option autoImplicit false

namespace Countdown

structure Machine (S E : Type) where
  /-- time to the next event, and the event -/
  next : S → Option (Int × E)
  elapse : Int → S → S
  fire : E → S → S
  /-- a bound for the events still to come -/
  rank : S → Nat

variable {S E : Type}

structure Laws (M : Machine S E) : Prop where
  next_nonneg : ∀ {s d e}, M.next s = some (d, e) → 0 ≤ d
  elapse_zero : ∀ s, M.elapse 0 s = s
  elapse_add : ∀ a b s, M.elapse b (M.elapse a s) = M.elapse (a + b) s
  /-- with nothing to come, nothing is counted -/
  elapse_none : ∀ {s} a, M.next s = none → M.elapse a s = s
  next_elapse : ∀ {s a d e}, 0 ≤ a → a ≤ d → M.next s = some (d, e) →
    M.next (M.elapse a s) = some (d - a, e)
  rank_elapse : ∀ a s, M.rank (M.elapse a s) = M.rank s
  rank_fire : ∀ {s d e}, M.next s = some (d, e) → M.rank (M.fire e (M.elapse d s)) < M.rank s

namespace Machine

/-- `r` units of time, and at most so many events -/
def pace (M : Machine S E) : Nat → Int → S → S
  | 0, _, s => s
  | k + 1, r, s =>
    if r ≤ 0 then s
    else
      match M.next s with
      | some (d, e) => if d < r then pace M k (r - d) (M.fire e (M.elapse d s)) else M.elapse r s
      | none => M.elapse r s

end Machine

section
variable {M : Machine S E} {s : S} {d r : Int} {e : E} {k : Nat}

theorem pace_of_nonpos (hr : r ≤ 0) : M.pace k r s = s := by
  cases k with
  | zero => rfl
  | succ k => rw [Machine.pace, if_pos hr]

theorem pace_fire (hn : M.next s = some (d, e)) (hd : d < r) (hr : 0 < r) :
    M.pace (k + 1) r s = M.pace k (r - d) (M.fire e (M.elapse d s)) := by
  rw [Machine.pace, if_neg (not_le.mpr hr), hn]
  simp [if_pos hd]

theorem pace_wait (hn : M.next s = some (d, e)) (hd : r ≤ d) (hr : 0 < r) :
    M.pace (k + 1) r s = M.elapse r s := by
  rw [Machine.pace, if_neg (not_le.mpr hr), hn]
  simp [if_neg (not_lt.mpr hd)]

theorem pace_none (hM : Laws M) (hn : M.next s = none) : M.pace k r s = s := by
  cases k with
  | zero => rfl
  | succ k =>
    rw [Machine.pace, hn]
    simp [hM.elapse_none r hn, ite_self]

variable (hM : Laws M)
include hM

theorem pace_bound {l : Nat} (hk : M.rank s < k) (hl : M.rank s < l) :
    M.pace k r s = M.pace l r s := by
  induction k generalizing s r l with
  | zero => exact absurd hk (Nat.not_lt_zero _)
  | succ k ih =>
    obtain ⟨l, rfl⟩ := Nat.exists_eq_succ_of_ne_zero (Nat.ne_zero_of_lt hl)
    by_cases hr : r ≤ 0
    · rw [pace_of_nonpos hr, pace_of_nonpos hr]
    have hpos : 0 < r := not_le.mp hr
    rcases hn : M.next s with _ | ⟨d, e⟩
    · rw [pace_none hM hn, pace_none hM hn]
    · by_cases hd : d < r
      · have hlt := hM.rank_fire hn
        rw [pace_fire hn hd hpos, pace_fire hn hd hpos]
        exact ih (by omega) (by omega)
      · rw [pace_wait hn (not_lt.mp hd) hpos, pace_wait hn (not_lt.mp hd) hpos]

theorem rank_pace : M.rank (M.pace k r s) ≤ M.rank s := by
  induction k generalizing s r with
  | zero => exact le_rfl
  | succ k ih =>
    by_cases hr : r ≤ 0
    · rw [pace_of_nonpos hr]
    have hpos : 0 < r := not_le.mp hr
    rcases hn : M.next s with _ | ⟨d, e⟩
    · rw [pace_none hM hn]
    · by_cases hd : d < r
      · rw [pace_fire hn hd hpos]
        exact ih.trans (hM.rank_fire hn).le
      · rw [pace_wait hn (not_lt.mp hd) hpos, hM.rank_elapse]

/-- Where a stretch is cut does not matter, as long as the events still to come are fewer than the
bound. -/
theorem pace_add {a b : Int} (ha : 0 < a) (hb : 0 < b) (hk : M.rank s < k) :
    M.pace k b (M.pace k a s) = M.pace k (a + b) s := by
  induction k generalizing s a with
  | zero => exact absurd hk (Nat.not_lt_zero _)
  | succ k ih =>
    rcases hn : M.next s with _ | ⟨d, e⟩
    · rw [pace_none hM hn, pace_none hM hn, pace_none hM hn]
    rcases lt_trichotomy d a with hd | rfl | hd
    · -- the event is in the first part: the cut is behind it
      have hlt := hM.rank_fire hn
      have hrank := rank_pace hM (s := M.fire e (M.elapse d s)) (r := a - d) (k := k)
      rw [pace_fire hn hd ha, pace_fire hn (show d < a + b by omega) (show 0 < a + b by omega),
        pace_bound hM (show _ < k + 1 by omega) (show _ < k by omega),
        ih (show 0 < a - d by omega) (by omega)]
      congr 1
      omega
    · -- it falls on the cut, and the second part starts with it
      have hnext := hM.next_elapse ha.le le_rfl hn
      rw [pace_wait hn le_rfl ha, pace_fire hnext (by omega) hb,
        pace_fire hn (show d < d + b by omega) (show 0 < d + b by omega), sub_self, hM.elapse_zero]
      congr 1
      omega
    · -- it is behind the cut
      have hnext := hM.next_elapse ha.le hd.le hn
      rw [pace_wait hn hd.le ha]
      by_cases hin : d < a + b
      · rw [pace_fire hnext (show d - a < b by omega) hb, pace_fire hn hin (show 0 < a + b by omega),
          hM.elapse_add, show a + (d - a) = d by omega, show b - (d - a) = a + b - d by omega]
      · rw [pace_wait hnext (show b ≤ d - a by omega) hb,
          pace_wait hn (not_lt.mp hin) (show 0 < a + b by omega), hM.elapse_add]

/-- With an event to come, time does not pass without a trace. -/
theorem pace_ne (hn : M.next s = some (d, e)) (hr : 0 < r) : M.pace (k + 1) r s ≠ s := by
  intro heq
  by_cases hd : d < r
  · have hrank := (rank_pace hM (k := k) (r := r - d)).trans_lt (hM.rank_fire hn)
    rw [← pace_fire hn hd hr, heq] at hrank
    exact lt_irrefl _ hrank
  · have hnext := hM.next_elapse hr.le (not_lt.mp hd) hn
    rw [pace_wait hn (not_lt.mp hd) hr] at heq
    rw [heq, hn, Option.some.injEq, Prod.mk.injEq] at hnext
    omega

end

end Countdown
