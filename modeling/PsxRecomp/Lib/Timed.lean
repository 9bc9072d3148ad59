import Mathlib.Data.List.Pairwise
import Mathlib.Data.Nat.Cast.Defs
import Mathlib.Logic.Function.Iterate

/-!
# `Lib/Timed.lean` — devices on one clock, advanced in slices

An ensemble of devices is advanced by slices of any length, each device in its turn. A device that has
no event in a slice works on its own state only (`free`); at an event it may look at and change the
others. Its slices add up, as long as no event is passed over (`Laws`). The clock is any counter `T`,
one that wraps around too.
-/

set_option autoImplicit false

open Function

namespace Timed

open List

variable {T ι S : Type} [DecidableEq ι]

/-- Devices with states in `S`, in the order of their turns. -/
structure Ensemble (T ι S : Type) where
  order : List ι
  /-- the cycles, and the clock at their end -/
  advance : ι → Nat → T → (ι → S) → ι → S
  /-- no event in the next so many cycles -/
  quiet : ι → Nat → S → Bool
  /-- what cycles without an event do -/
  free : ι → Nat → S → S

/-- The clock, the devices, and the cycles at which events happened. -/
structure World (T ι S : Type) where
  clock : T
  dev : ι → S
  log : List (T × ι)

structure Laws [AddMonoidWithOne T] (M : Ensemble T ι S) : Prop where
  nodup : M.order.Nodup
  quiet_zero : ∀ i s, M.quiet i 0 s = true
  quiet_mono : ∀ i s {a b : Nat}, a ≤ b → M.quiet i b s = true → M.quiet i a s = true
  quiet_free : ∀ i s {a : Nat} (b : Nat), M.quiet i a s = true →
    M.quiet i b (M.free i a s) = M.quiet i (a + b) s
  free_zero : ∀ i s, M.free i 0 s = s
  free_add : ∀ i s {a b : Nat}, M.quiet i (a + b) s = true →
    M.free i b (M.free i a s) = M.free i (a + b) s
  advance_quiet : ∀ i c t x, M.quiet i c (x i) = true →
    M.advance i c t x = Function.update x i (M.free i c (x i))
  advance_add : ∀ i a b t x, 0 < b → M.quiet i (a + b - 1) (x i) = true →
    M.advance i b (t + b) (M.advance i a t x) = M.advance i (a + b) (t + b) x

/-- At its event, `i` neither looks at nor changes `k`. -/
def Blind (M : Ensemble T ι S) (i k : ι) : Prop :=
  ∀ t x v, M.advance i 1 t (Function.update x k v) = Function.update (M.advance i 1 t x) k v

namespace Ensemble
variable (M : Ensemble T ι S)

/-- The turn of one device in a slice of `c` cycles that ends at `t`. -/
def turn (c : Nat) (t : T) (r : (ι → S) × List (T × ι)) (i : ι) : (ι → S) × List (T × ι) :=
  (M.advance i c t r.1, if M.quiet i c (r.1 i) then r.2 else r.2 ++ [(t, i)])

def slice [AddMonoidWithOne T] (c : Nat) (w : World T ι S) : World T ι S :=
  let r := M.order.foldl (M.turn c (w.clock + c)) (w.dev, w.log)
  ⟨w.clock + c, r.1, r.2⟩

/-- No device has an event in the next `c` cycles. -/
def AllQuiet (c : Nat) (x : ι → S) : Prop := ∀ i ∈ M.order, M.quiet i c (x i) = true

/-- `c` cycles without events, for the devices in `l`. -/
def drift (l : List ι) (c : Nat) (x : ι → S) (i : ι) : S := if i ∈ l then M.free i c (x i) else x i

end Ensemble

section
variable {M : Ensemble T ι S}

theorem drift_nil (c : Nat) (x : ι → S) : M.drift [] c x = x := by
  funext i
  simp [Ensemble.drift]

variable {l : List ι} {i : ι}

theorem drift_cons (hi : i ∉ l) (c : Nat) (x : ι → S) :
    M.drift (i :: l) c x = M.drift l c (Function.update x i (M.free i c (x i))) := by
  funext k
  by_cases hk : k = i
  · subst hk
    simp [Ensemble.drift, hi]
  · simp [Ensemble.drift, hk]

variable {x : ι → S}

theorem Blind.advance_congr (h : ∀ k ∈ l, Blind M i k) (t : T) {y : ι → S}
    (hxy : ∀ k, k ∉ l → y k = x k) (k : ι) :
    M.advance i 1 t y k = if k ∈ l then y k else M.advance i 1 t x k := by
  induction l generalizing y with
  | nil =>
    obtain rfl : y = x := funext fun k => hxy k not_mem_nil
    simp
  | cons j l ih =>
    -- take `j` back to what it is in `x`
    have hback := ih (fun k hk => h k (.tail j hk)) (y := update y j (x j)) fun k hk => by
      by_cases hkj : k = j
      · subst hkj
        simp
      · rw [update_of_ne hkj]
        exact hxy k (by simp [hkj, hk])
    have hy : y = update (update y j (x j)) j (y j) := by simp
    rw [hy, h j mem_cons_self]
    by_cases hkj : k = j
    · subst hkj
      simp
    · rw [update_of_ne hkj, hback]
      simp [hkj]

theorem Blind.advance_self {k : ι} (h : Blind M i k) (t : T) (x : ι → S) :
    M.advance i 1 t x k = x k := by
  have hk := Blind.advance_congr (l := [k]) (by simpa using h) t (x := x) (y := x) fun _ _ => rfl
  simpa using hk k

theorem Blind.advance_drift (h : ∀ k ∈ l, Blind M i k) (c : Nat) (t : T)
    (x : ι → S) : M.advance i 1 t (M.drift l c x) = M.drift l c (M.advance i 1 t x) := by
  have hoff : ∀ k, k ∉ l → M.drift l c x k = x k := fun k hk => if_neg hk
  funext k
  rw [Blind.advance_congr h t hoff]
  by_cases hk : k ∈ l
  · simp only [Ensemble.drift, hk, if_true, (h k hk).advance_self]
  · simp [Ensemble.drift, hk]

variable [AddMonoidWithOne T] {c : Nat}

theorem foldl_turn_succ (hM : Laws M) (t : T) (hl : l.Pairwise (Blind M))
    (hnodup : l.Nodup) (hq : ∀ i ∈ l, M.quiet i c (x i) = true)
    (log : List (T × ι)) :
    l.foldl (M.turn (c + 1) (t + 1)) (x, log) =
      l.foldl (M.turn 1 (t + 1)) (M.drift l c x, log) := by
  induction l generalizing x log with
  | nil => simp [drift_nil]
  | cons i l ih =>
    obtain ⟨hi, hl⟩ := pairwise_cons.mp hl
    obtain ⟨hmem, hnodup⟩ := nodup_cons.mp hnodup
    have hqi := hq i mem_cons_self
    let z := update x i (M.free i c (x i))
    let log' := if M.quiet i (c + 1) (x i) then log else log ++ [(t + 1, i)]
    have hfirst : M.turn (c + 1) (t + 1) (x, log) i = (M.advance i 1 (t + 1) z, log') := by
      have hadd := hM.advance_add i c 1 t x Nat.one_pos hqi
      rw [Nat.cast_one, hM.advance_quiet i c t x hqi] at hadd
      rw [Ensemble.turn, ← hadd]
    have hsecond : M.turn 1 (t + 1) (M.drift (i :: l) c x, log) i =
        (M.drift l c (M.advance i 1 (t + 1) z), log') := by
      have hself : M.drift (i :: l) c x i = M.free i c (x i) := by simp [Ensemble.drift]
      simp only [Ensemble.turn, hself, hM.quiet_free i (x i) 1 hqi]
      rw [drift_cons hmem, Blind.advance_drift hi]
    rw [foldl_cons, foldl_cons, hfirst, hsecond]
    refine ih hl hnodup (fun k hk => ?_) _
    have hki : k ≠ i := fun h => hmem (h ▸ hk)
    have hzk : z k = x k := update_of_ne hki _ _
    rw [(hi k hk).advance_self, hzk]
    exact hq k (.tail i hk)

theorem foldl_turn_quiet (hM : Laws M) (t : T) (hnodup : l.Nodup)
    (hq : ∀ i ∈ l, M.quiet i c (x i) = true) (log : List (T × ι)) :
    l.foldl (M.turn c t) (x, log) = (M.drift l c x, log) := by
  induction l generalizing x with
  | nil => simp [drift_nil]
  | cons i l ih =>
    obtain ⟨hmem, hnodup⟩ := nodup_cons.mp hnodup
    have hqi := hq i mem_cons_self
    have hturn : M.turn c t (x, log) i = (update x i (M.free i c (x i)), log) := by
      simp only [Ensemble.turn, hqi, if_true, hM.advance_quiet i c t x hqi]
    rw [foldl_cons, hturn, ih hnodup, drift_cons hmem]
    intro k hk
    have hki : k ≠ i := fun h => hmem (h ▸ hk)
    rw [update_of_ne hki]
    exact hq k (.tail i hk)

variable {w : World T ι S} {a b : Nat}

theorem AllQuiet.mono (hM : Laws M) (hab : a ≤ b) (h : M.AllQuiet b x) :
    M.AllQuiet a x :=
  fun i hi => hM.quiet_mono i _ hab (h i hi)

theorem AllQuiet.drift (hM : Laws M) (h : M.AllQuiet (a + b) x) :
    M.AllQuiet b (M.drift M.order a x) := by
  intro i hi
  rw [Ensemble.drift, if_pos hi,
    hM.quiet_free i (x i) b (hM.quiet_mono i _ (Nat.le_add_right a b) (h i hi))]
  exact h i hi

theorem drift_add (hM : Laws M) (h : M.AllQuiet (a + b) x) :
    M.drift M.order b (M.drift M.order a x) = M.drift M.order (a + b) x := by
  funext i
  by_cases hi : i ∈ M.order
  · simp only [Ensemble.drift, hi, if_true]
    exact hM.free_add i _ (h i hi)
  · simp [Ensemble.drift, hi]

theorem iterate_slice_eq_drift (hM : Laws M) (hq : M.AllQuiet c w.dev) :
    (M.slice 1)^[c] w = ⟨w.clock + c, M.drift M.order c w.dev, w.log⟩ := by
  induction c with
  | zero =>
    have hzero : M.drift M.order 0 w.dev = w.dev := by
      funext i
      simp [Ensemble.drift, hM.free_zero]
    rw [hzero, Nat.cast_zero, add_zero]
    rfl
  | succ c ih =>
    rw [iterate_succ_apply', ih (AllQuiet.mono hM (Nat.le_succ c) hq),
      Ensemble.slice, foldl_turn_quiet hM _ hM.nodup (AllQuiet.drift hM hq), drift_add hM hq,
      Nat.cast_add, ← add_assoc]

/-- A slice that reaches no event before its end is so many single cycles, if no device at its event
looks at those whose turn is still to come: in the long slice they lag behind it. -/
theorem slice_eq_iterate (hM : Laws M) (hb : M.order.Pairwise (Blind M))
    (hq : M.AllQuiet c w.dev) : M.slice (c + 1) w = (M.slice 1)^[c + 1] w := by
  rw [iterate_succ_apply', iterate_slice_eq_drift hM hq]
  simp only [Ensemble.slice, Nat.cast_add, Nat.cast_one, ← add_assoc,
    foldl_turn_succ hM (w.clock + c) hb hM.nodup hq w.log]

end

end Timed
