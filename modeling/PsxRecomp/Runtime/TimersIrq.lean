import Mathlib.Logic.Function.Iterate
import Mathlib.Tactic.NormNum
import PsxRecomp.Lib.Words
import PsxRecomp.Runtime.Timers

/-!
# `Runtime/TimersIrq.lean` — the distance to a timer interrupt, and cutting an advance

The fraction of a divided clock stays below its divisor (`Counted`), so the distance in counts is the
distance in cycles, and a counter that is further than `n` counts from every event it is armed for stays
silent for `n` counts (`Clear`).

The fraction is added to the cycles in 32 bits, so an advance of nearly 2³² cycles may lose 2³² cycles
that its two halves count (`Loses`). For the dividers 5 and 2146 the fraction shows it. For the divider
8 exactly 2²⁹ counts are lost, which goes unnoticed when they would bring the counter back to where it
was and find every flag set (`Unseen`).
-/

set_option autoImplicit false

open Function

namespace PsxRecomp.Timers

open Logged List

/-! ## 1. What a tick leaves -/
variable {j : Nat}

section
variable {tm : Timer} {i : Nat}

/-- The bits of `mode` that ticks change: the armed sources, the request and the two flags -/
def Volatile (i : Nat) : Prop :=
  i = irqTarget ∨ i = irqOverflow ∨ i = irqRequest ∨ i = targetFlag ∨ i = overflowFlag

structure Same (tm tm' : Timer) : Prop where
  target : tm'.target = tm.target
  has : ∀ i, i < 32 → ¬ Volatile i → tm'.has i = tm.has i
  flags : ∀ i, i = targetFlag ∨ i = overflowFlag → tm.has i = true → tm'.has i = true

theorem Same.refl (tm : Timer) : Same tm tm := ⟨rfl, fun _ _ _ => rfl, fun _ _ h => h⟩

theorem Same.trans {a b c : Timer} (h : Same a b) (h' : Same b c) : Same a c where
  target := h'.target.trans h.target
  has i hi hv := (h'.has i hi hv).trans (h.has i hi hv)
  flags i hi hf := h'.flags i hi (h.flags i hi hf)

theorem bit_getLsbD (hi : i < 32) : (bit j).getLsbD i = decide (i = j) := by
  simp only [bit, BitVec.getLsbD_shiftLeft, BitVec.getLsbD_one]
  by_cases h : i = j
  · simp [h]
    omega
  · simp [h]
    omega

theorem has_flag (hi : i < 32) : (tm.flag j).has i = (tm.has i || decide (i = j)) := by
  simp only [Timer.flag, Timer.setMode, Timer.has, BitVec.getLsbD_or, bit_getLsbD hi]

theorem has_flag_ne (hi : i < 32) (hne : i ≠ j) : (tm.flag j).has i = tm.has i := by
  simp [has_flag hi, hne]

theorem has_clear {m : Word} (hi : i < 32) :
    (tm.setMode (tm.mode &&& ~~~m)).has i = (tm.has i && !m.getLsbD i) := by
  simp only [Timer.setMode, Timer.has, BitVec.getLsbD_and, BitVec.getLsbD_not, hi, decide_true,
    Bool.true_and]

theorem same_flag (hj : Volatile j) : Same tm (tm.flag j) where
  target := rfl
  has i hi hv := by
    exact has_flag_ne hi fun h => hv (h ▸ hj)
  flags i hi hf := by
    have : i < 32 := by rcases hi with rfl | rfl <;> decide
    simp [has_flag this, hf]

theorem same_clear {m : Word}
    (hm : ∀ i < 32, m.getLsbD i = true → i = irqTarget ∨ i = irqOverflow ∨ i = irqRequest) :
    Same tm (tm.setMode (tm.mode &&& ~~~m)) where
  target := rfl
  has i hi hv := by
    have hbit : m.getLsbD i = false :=
      Bool.eq_false_iff.mpr fun h => hv (by rcases hm i hi h with rfl | rfl | rfl <;> simp [Volatile])
    simp [has_clear hi, hbit]
  flags i hi hf := by
    have hlt : i < 32 := by rcases hi with rfl | rfl <;> decide
    have hbit : m.getLsbD i = false := Bool.eq_false_iff.mpr fun h => by
      rcases hi with rfl | rfl <;> exact absurd (hm _ hlt h) (by decide)
    simp [has_clear hlt, hbit, hf]

theorem same_unflag_request : Same tm (tm.unflag irqRequest) := same_clear (by decide)

theorem same_line (tm : Timer) (l : Word) : Same tm { tm with irqLine := l } :=
  ⟨rfl, fun _ _ _ => rfl, fun _ _ h => h⟩

theorem same_requestIrq (tm : Timer) : Same tm (requestIrq tm).1 := by
  have hreq : Volatile irqRequest := by simp [Volatile]
  unfold requestIrq
  dsimp only
  split_ifs
  · exact (same_line tm _).trans same_unflag_request
  · exact (same_line tm _).trans (same_flag hreq)
  · exact same_unflag_request.trans (same_flag hreq)

theorem same_fireIf (armed : Nat) (tm : Timer) : Same tm (fireIf armed tm).1 := by
  unfold fireIf timerFireIrq
  split_ifs
  · have h := same_requestIrq tm
    revert h
    generalize requestIrq tm = r
    intro h
    dsimp only
    split_ifs
    · exact h
    · exact h.trans (same_clear (by decide))
  · exact .refl tm

theorem same_atTarget (tm : Timer) : Same tm (atTarget tm).1 := by
  have h : Same tm (fireIf irqTarget (tm.flag targetFlag)).1 :=
    (same_flag (by simp [Volatile])).trans (same_fireIf ..)
  unfold atTarget
  dsimp only
  split_ifs
  · exact ⟨h.target, h.has, h.flags⟩
  · exact h

theorem same_atOverflow (tm : Timer) : Same tm (atOverflow tm).1 :=
  (same_flag (by simp [Volatile])).trans (same_fireIf ..)

theorem same_cond {f : Timer → Timer × List Fire} (hf : ∀ tm, Same tm (f tm).1) (p : Bool) (tm : Timer) :
    Same tm (cond p f tm).1 := by
  unfold cond
  split_ifs
  · exact hf tm
  · exact .refl tm

theorem same_tick (tm : Timer) : Same tm (timerTickOne tm).1 := by
  have hcount : Same tm { tm with counter := tm.counter + 1#16 } :=
    ⟨rfl, fun _ _ _ => rfl, fun _ _ h => h⟩
  exact hcount.trans ((same_cond same_atTarget ..).trans (same_cond same_atOverflow ..))

theorem same_times (n : Nat) (tm : Timer) : Same tm (times timerTickOne n tm).1 := by
  induction n generalizing tm with
  | zero => exact .refl tm
  | succ n ih => exact (same_tick tm).trans (ih _)

end

/-! ## 2. Silent ticks -/
variable {armed : Nat} {p : Bool}

section
variable {tm : Timer} {n : Nat}

theorem fireIf_unarmed (h : tm.has armed = false) : fireIf armed tm = (tm, []) := by
  simp [fireIf, h]

theorem fireIf_armed (h : tm.has armed = true) : (fireIf armed tm).2 ≠ [] := by
  simp [fireIf, h]

theorem atTarget_unarmed (h : tm.has irqTarget = false) : atTarget tm =
    (if tm.has resetTarget then { tm.flag targetFlag with counter := 0#16 } else tm.flag targetFlag,
      []) := by
  have hirq : (tm.flag targetFlag).has irqTarget = false :=
    (has_flag_ne (by decide) (by decide)).trans h
  have hreset : (tm.flag targetFlag).has resetTarget = tm.has resetTarget :=
    has_flag_ne (by decide) (by decide)
  simp only [atTarget, fireIf_unarmed hirq, hreset]

theorem atTarget_armed (h : tm.has irqTarget = true) : (atTarget tm).2 ≠ [] :=
  fireIf_armed ((has_flag_ne (by decide) (by decide)).trans h)

theorem atOverflow_unarmed (h : tm.has irqOverflow = false) :
    atOverflow tm = (tm.flag overflowFlag, []) :=
  fireIf_unarmed ((has_flag_ne (by decide) (by decide)).trans h)

theorem atOverflow_armed (h : tm.has irqOverflow = true) : (atOverflow tm).2 ≠ [] :=
  fireIf_armed ((has_flag_ne (by decide) (by decide)).trans h)

def Timer.Hits (tm : Timer) : Prop := tm.counter + 1#16 = tm.target

def Timer.Wraps (tm : Timer) : Prop := tm.counter = 0xFFFF#16

instance (tm : Timer) : Decidable tm.Hits := inferInstanceAs (Decidable (_ = _))
instance (tm : Timer) : Decidable tm.Wraps := inferInstanceAs (Decidable (_ = _))

structure Timer.Unarmed (tm : Timer) : Prop where
  target : tm.Hits → tm.has irqTarget = false
  overflow : tm.Wraps → tm.has irqOverflow = false

def Timer.next (tm : Timer) : BitVec 16 :=
  if tm.Hits ∧ tm.has resetTarget then 0#16 else tm.counter + 1#16

def Timer.marks (tm : Timer) : Word :=
  let m := if tm.Hits then tm.mode ||| bit targetFlag else tm.mode
  if tm.Wraps then m ||| bit overflowFlag else m

theorem cond_target_unarmed (h : p = true → tm.has irqTarget = false) :
    cond p atTarget tm = ({ tm with
      counter := if p ∧ tm.has resetTarget then 0#16 else tm.counter
      mode := if p then tm.mode ||| bit targetFlag else tm.mode }, []) := by
  cases p with
  | false => simp [cond]
  | true =>
    simp only [cond, if_true, atTarget_unarmed (h rfl), true_and]
    split_ifs <;> rfl

theorem cond_overflow_unarmed (h : p = true → tm.has irqOverflow = false) :
    cond p atOverflow tm = ({ tm with
      mode := if p then tm.mode ||| bit overflowFlag else tm.mode }, []) := by
  cases p with
  | false => simp [cond]
  | true => simp only [cond, if_true, atOverflow_unarmed (h rfl)]; rfl

theorem Timer.Unarmed.tick (h : tm.Unarmed) :
    timerTickOne tm = ({ tm with counter := tm.next, mode := tm.marks }, []) := by
  have ht : decide tm.Hits = true → tm.has irqTarget = false := fun hp => h.target (of_decide_eq_true hp)
  have ho : decide tm.Wraps = true → tm.has irqOverflow = false :=
    fun hp => h.overflow (of_decide_eq_true hp)
  have hmark : (tm.flag targetFlag).has irqOverflow = tm.has irqOverflow :=
    has_flag_ne (by decide) (by decide)
  have hafter (c : BitVec 16) : decide tm.Wraps = true → has { tm with
      counter := c, mode := if decide tm.Hits then tm.mode ||| bit targetFlag else tm.mode }
      irqOverflow = false := by
    intro hp
    split_ifs
    · exact hmark.trans (ho hp)
    · exact ho hp
  have hfirst : cond (decide tm.Hits) atTarget { tm with counter := tm.counter + 1#16 } = _ :=
    cond_target_unarmed ht
  show andThen (cond (decide tm.Hits) atTarget) (cond (decide tm.Wraps) atOverflow) _ = _
  rw [andThen, hfirst, cond_overflow_unarmed (hafter _)]
  simp only [next, marks, decide_eq_true_eq, append_nil]
  rfl

theorem unarmed_of_cond {f : Timer → Timer × List Fire}
    (hf : tm.has armed = true → (f tm).2 ≠ []) (h : (cond p f tm).2 = []) (hp : p = true) :
    tm.has armed = false := by
  subst hp
  exact Bool.eq_false_iff.mpr fun harm => hf harm h

theorem unarmed_of_silent (h : (timerTickOne tm).2 = []) : tm.Unarmed := by
  obtain ⟨hfirst, hsecond⟩ := append_eq_nil_iff.mp h
  have htarget := unarmed_of_cond atTarget_armed hfirst
  change decide tm.Hits = true → tm.has irqTarget = false at htarget
  refine ⟨fun hit => htarget (decide_eq_true hit), fun hit => ?_⟩
  have hafter : cond (decide tm.Hits) atTarget { tm with counter := tm.counter + 1#16 } = _ :=
    cond_target_unarmed htarget
  have hmark : (tm.flag targetFlag).has irqOverflow = tm.has irqOverflow :=
    has_flag_ne (by decide) (by decide)
  have hover := unarmed_of_cond atOverflow_armed hsecond (decide_eq_true hit)
  change Timer.has (cond (decide tm.Hits) atTarget _).1 irqOverflow = false at hover
  rw [hafter] at hover
  by_cases hh : tm.Hits
  · simp only [hh, decide_true, if_true] at hover
    exact hmark.symm.trans hover
  · simp only [hh, decide_false, Bool.false_eq_true, if_false] at hover
    exact hover

/-- More than `n` counts from every event the counter is armed for -/
structure Clear (n : Nat) (tm : Timer) : Prop where
  target : tm.has irqTarget = true → n < tm.targetDist
  overflow : tm.has irqOverflow = true → n < tm.overflowDist

theorem Timer.hits_iff : tm.Hits ↔ tm.targetDist = 1 :=
  (count_eq_target_iff Nat.one_pos tm.targetDist_pos).trans eq_comm

theorem Timer.wraps_iff : tm.Wraps ↔ tm.overflowDist = 1 := by
  rw [Wraps, ← BitVec.toNat_inj, overflowDist, BitVec.toNat_ofNat]
  omega

theorem Clear.unarmed (h : Clear (n + 1) tm) : tm.Unarmed where
  target hit := by
    rw [Timer.hits_iff] at hit
    by_contra harm
    have := h.target (by simpa using harm)
    omega
  overflow hit := by
    rw [Timer.wraps_iff] at hit
    by_contra harm
    have := h.overflow (by simpa using harm)
    omega

theorem Timer.targetDist_count {k : Nat} (h : k < tm.targetDist) :
    (tm.count k).targetDist = tm.targetDist - k := by
  obtain ⟨hmod, hle⟩ := tm.toNat_targetDist
  obtain ⟨hmod', hle'⟩ := (tm.count k).toNat_targetDist
  have hpos := (tm.count k).targetDist_pos
  rw [count_counter] at hmod'
  change _ = (tm.target.toNat + _ - _) % _ at hmod'
  omega

theorem has_marks {i : Nat} (hi : i < 32) (ht : i ≠ targetFlag) (ho : i ≠ overflowFlag) (c : BitVec 16) :
    Timer.has { tm with counter := c, mode := tm.marks } i = tm.has i := by
  have hmark (t : Timer) : (t.flag overflowFlag).has i = t.has i := has_flag_ne hi ho
  have htarget : (tm.flag targetFlag).has i = tm.has i := has_flag_ne hi ht
  unfold Timer.marks
  dsimp only
  split_ifs
  · exact (hmark (tm.flag targetFlag)).trans htarget
  · exact hmark tm
  · exact htarget
  · rfl

theorem Clear.tick (h : Clear (n + 1) tm) :
    (timerTickOne tm).2 = [] ∧ Clear n (timerTickOne tm).1 := by
  rw [h.unarmed.tick]
  refine ⟨rfl, fun harm => ?_, fun harm => ?_⟩
  · rw [has_marks (by decide) (by decide) (by decide)] at harm
    have hdist := h.target harm
    have hnot : ¬ tm.Hits := by
      rw [Timer.hits_iff]
      omega
    have hnext : Timer.targetDist { tm with counter := tm.next, mode := tm.marks } =
        (tm.count 1).targetDist := by
      simp only [Timer.targetDist, Timer.count, Timer.next, hnot, false_and, if_false]
      rfl
    rw [hnext, Timer.targetDist_count (by omega)]
    omega
  · rw [has_marks (by decide) (by decide) (by decide)] at harm
    have hdist := h.overflow harm
    simp only [Timer.overflowDist, Timer.next] at hdist ⊢
    split_ifs
    · simp
      omega
    · rw [BitVec.toNat_add]
      simp
      omega

theorem Clear.times (h : Clear n tm) : (Logged.times timerTickOne n tm).2 = [] :=
  times_silent (fun _ _ => Clear.tick) h

end

open Timer

/-! ## 3. Counts that change nothing -/
section
variable {tm : Timer} {n k : Nat}

structure Timer.Steady (tm : Timer) : Prop where
  target : tm.Hits → tm.has targetFlag = true ∧ tm.has irqTarget = false
  overflow : tm.Wraps → tm.has overflowFlag = true ∧ tm.has irqOverflow = false

def Timer.turn (tm : Timer) : Timer := { tm with counter := tm.next }

theorem or_bit_of_has {i : Nat} (hi : i < 32) (h : tm.has i = true) : tm.mode ||| bit i = tm.mode := by
  apply BitVec.eq_of_getLsbD_eq
  intro j hj
  rw [BitVec.getLsbD_or, bit_getLsbD hj]
  by_cases hij : j = i
  · subst hij
    change tm.mode.getLsbD j = true at h
    simp [h]
  · simp [hij]

theorem Timer.Steady.tick (h : tm.Steady) : timerTickOne tm = (tm.turn, []) := by
  have hun : tm.Unarmed := ⟨fun hit => (h.target hit).2, fun hit => (h.overflow hit).2⟩
  have hmarks : tm.marks = tm.mode := by
    have ht (hit : tm.Hits) : tm.mode ||| bit targetFlag = tm.mode :=
      or_bit_of_has (by decide) (h.target hit).1
    have ho (hit : tm.Wraps) : tm.mode ||| bit overflowFlag = tm.mode :=
      or_bit_of_has (by decide) (h.overflow hit).1
    unfold marks
    dsimp only
    split_ifs with hw hh hh
    · rw [ht hh, ho hw]
    · exact ho hw
    · exact ht hh
    · rfl
  rw [hun.tick, hmarks, turn]

theorem times_steady (h : ∀ j < n, (turn^[j] tm).Steady) :
    times timerTickOne n tm = (turn^[n] tm, []) := by
  induction n with
  | zero => rfl
  | succ n ih =>
    rw [times_succ_last, andThen, ih fun j hj => h j (by omega), (h n (by omega)).tick,
      iterate_succ_apply']
    rfl

theorem iterate_turn (tm : Timer) (k : Nat) : ∃ c, turn^[k] tm = { tm with counter := c } := by
  induction k with
  | zero => exact ⟨tm.counter, rfl⟩
  | succ k ih =>
    obtain ⟨c, hc⟩ := ih
    rw [iterate_succ_apply', hc]
    exact ⟨_, rfl⟩

theorem has_iterate_turn (tm : Timer) (k i : Nat) : (turn^[k] tm).has i = tm.has i := by
  obtain ⟨c, hc⟩ := iterate_turn tm k
  rw [hc]
  rfl

theorem marks_target (h : tm.Hits) : tm.marks.getLsbD targetFlag = true := by
  have hmark : (tm.flag targetFlag).has targetFlag = true := by
    rw [has_flag (by decide)]
    simp
  have hboth : ((tm.flag targetFlag).flag overflowFlag).has targetFlag = true :=
    (has_flag_ne (by decide) (by decide)).trans hmark
  simp only [marks, h, if_true]
  split_ifs
  · exact hboth
  · exact hmark

theorem marks_overflow (h : tm.Wraps) : tm.marks.getLsbD overflowFlag = true := by
  simp only [marks, h, if_true, BitVec.getLsbD_or, bit_getLsbD (show overflowFlag < 32 by decide),
    decide_true, Bool.or_true]

theorem steady_of_times (h : times timerTickOne n tm = (tm, [])) :
    ∀ j < n, (turn^[j] tm).Steady := by
  intro j
  induction j using Nat.strong_induction_on with
  | _ j ih =>
    intro hj
    have hbefore := times_steady fun i hi => ih i hi (hi.trans hj)
    have hhas := has_iterate_turn tm j
    obtain ⟨rest, rfl⟩ : ∃ rest, n = j + (1 + rest) := ⟨n - j - 1, by omega⟩
    generalize turn^[j] tm = u at hbefore hhas ⊢
    rw [times_add, andThen, hbefore, times_add, andThen, times_one, Prod.mk.injEq] at h
    obtain ⟨hend, hsilent⟩ := h
    have hnow : (timerTickOne u).2 = [] := by
      simp only [nil_append, append_eq_nil_iff] at hsilent
      exact hsilent.1
    have hun := unarmed_of_silent hnow
    have hlater := same_times rest (timerTickOne u).1
    rw [hend, hun.tick] at hlater
    -- a flag set here would still be set at the end, where the mode is the old one
    refine ⟨fun hit => ⟨?_, hun.target hit⟩, fun hit => ⟨?_, hun.overflow hit⟩⟩
    · rw [hhas]
      exact hlater.flags _ (.inl rfl) (marks_target hit)
    · rw [hhas]
      exact hlater.flags _ (.inr rfl) (marks_overflow hit)

/-! The course of the counter -/

/-- The counter starts anew at a target other than zero. -/
def Timer.Laps (tm : Timer) : Prop := tm.has resetTarget = true ∧ tm.target ≠ 0#16

instance (tm : Timer) : Decidable tm.Laps := inferInstanceAs (Decidable (_ ∧ _))

theorem Timer.turn_eq_count (h : ¬ (tm.Hits ∧ tm.Laps)) : tm.turn = tm.count 1 := by
  have hnext : tm.next = tm.counter + 1#16 := by
    unfold next
    split_ifs with hit
    · have hzero : tm.target = 0#16 := by
        by_contra hne
        exact h ⟨hit.1, hit.2, hne⟩
      rw [← hzero]
      exact hit.1.symm
    · rfl
  rw [turn, hnext]
  rfl

theorem Timer.count_count (tm : Timer) (j k : Nat) : (tm.count j).count k = tm.count (j + k) := by
  simp only [count, BitVec.ofNat_add, add_assoc]

theorem iterate_turn_count (h : ∀ j < k, ¬ ((tm.count j).Hits ∧ tm.Laps)) :
    turn^[k] tm = tm.count k := by
  induction k with
  | zero => simp [Timer.count]
  | succ k ih =>
    have hstep : (tm.count k).turn = (tm.count k).count 1 := turn_eq_count (h k k.lt_succ_self)
    rw [iterate_succ_apply', ih fun j hj => h j (by omega), hstep, count_count]

theorem iterate_turn_lt (h : k < tm.targetDist) : turn^[k] tm = tm.count k := by
  refine iterate_turn_count fun j hj hit => ?_
  rw [hits_iff, targetDist_count (by omega)] at hit
  omega

theorem iterate_turn_free (h : ¬ tm.Laps) : turn^[k] tm = tm.count k :=
  iterate_turn_count fun _ _ hit => h hit.2

theorem iterate_turn_target (tm : Timer) (h : tm.Laps) :
    turn^[tm.targetDist] tm = { tm with counter := 0#16 } := by
  obtain ⟨k, hk⟩ : ∃ k, tm.targetDist = k + 1 := ⟨tm.targetDist - 1, by have := tm.targetDist_pos; omega⟩
  have hit : (tm.count k).Hits := by
    rw [hits_iff, targetDist_count (by omega)]
    omega
  have hreset : (tm.count k).has resetTarget = true := h.1
  rw [hk, iterate_succ_apply', iterate_turn_lt (by omega)]
  simp only [turn, Timer.next, hit, hreset, and_self, if_true]
  rfl

theorem Timer.targetDist_zero (ht : tm.target ≠ 0#16) :
    targetDist { tm with counter := 0#16 } = tm.target.toNat := by
  have hne : tm.target.toNat ≠ 0 := fun h => ht (BitVec.eq_of_toNat_eq h)
  simp [targetDist, hne]

theorem iterate_turn_zero (h : tm.Laps) (k : Nat) :
    (turn^[k] { tm with counter := 0#16 }).counter.toNat = k % tm.target.toNat := by
  have hdist := tm.targetDist_zero h.2
  have hlap := iterate_turn_target { tm with counter := 0#16 } h
  rw [hdist] at hlap
  induction k using Nat.strong_induction_on with
  | _ k ih =>
    by_cases hk : k < tm.target.toNat
    · rw [iterate_turn_lt (by rw [hdist]; exact hk), count_counter, Nat.mod_eq_of_lt hk]
      simp
      omega
    · obtain ⟨j, rfl⟩ := Nat.exists_eq_add_of_le' (Nat.le_of_not_lt hk)
      have hpos := targetDist_pos { tm with counter := 0#16 }
      rw [iterate_add_apply, hlap, ih j (by omega), Nat.add_mod_right]

/-- The counts the 32-bit sum of a clock divided by eight can lose -/
def lostCounts : Nat := 2 ^ 29

/-- So many counts would leave the counter as it is, and find the flags they set already set. -/
def Timer.Unseen (tm : Timer) : Prop :=
  tm.has targetFlag = true ∧ tm.has irqTarget = false ∧
    if tm.Laps then tm.counter < tm.target ∧ tm.target.toNat ∣ lostCounts
    else tm.has overflowFlag = true ∧ tm.has irqOverflow = false

theorem iterate_turn_below (h : tm.Laps) (hlt : tm.counter < tm.target) (k : Nat) :
    (turn^[k] tm).counter.toNat = (k + tm.counter.toNat) % tm.target.toNat := by
  have hstart : turn^[tm.counter.toNat] { tm with counter := 0#16 } = tm := by
    rw [iterate_turn_lt (by rw [targetDist_zero h.2]; exact hlt)]
    simp [Timer.count]
  rw [← iterate_turn_zero h, iterate_add_apply, hstart]

theorem eq_of_counter {k : Nat} (h : (turn^[k] tm).counter = tm.counter) :
    turn^[k] tm = tm := by
  obtain ⟨c, hc⟩ := iterate_turn tm k
  rw [hc] at h ⊢
  simp only at h
  rw [h]

theorem Timer.Unseen.steady (h : tm.Unseen) (k : Nat) : (turn^[k] tm).Steady := by
  obtain ⟨hflag, hirq, hrest⟩ := h
  refine ⟨fun _ => by simp only [has_iterate_turn, hflag, hirq, and_self], fun hwrap => ?_⟩
  simp only [has_iterate_turn]
  split_ifs at hrest with hlaps
  · -- below the target the counter never comes to 0xFFFF
    have hbelow := iterate_turn_below hlaps hrest.1 k
    have hpos : 0 < tm.target.toNat := by
      have : tm.counter.toNat < tm.target.toNat := hrest.1
      omega
    have hlt := Nat.mod_lt (k + tm.counter.toNat) hpos
    rw [Wraps, ← BitVec.toNat_inj, hbelow, BitVec.toNat_ofNat] at hwrap
    omega
  · exact hrest

theorem Timer.Unseen.iterate (h : tm.Unseen) : turn^[lostCounts] tm = tm := by
  obtain ⟨-, -, hrest⟩ := h
  refine eq_of_counter (BitVec.eq_of_toNat_eq ?_)
  split_ifs at hrest with hlaps
  · obtain ⟨hlt, q, hq⟩ := hrest
    have hlt' : tm.counter.toNat < tm.target.toNat := hlt
    rw [iterate_turn_below hlaps hlt, hq, Nat.mul_add_mod, Nat.mod_eq_of_lt hlt']
  · have hc := tm.counter.isLt
    rw [iterate_turn_free hlaps, count_counter, lostCounts]
    omega

theorem unseen_of_times (h : times timerTickOne lostCounts tm = (tm, [])) : tm.Unseen := by
  have hsteady := steady_of_times h
  have hback : turn^[lostCounts] tm = tm := by
    rw [times_steady hsteady, Prod.mk.injEq] at h
    exact h.1
  have hbound := tm.toNat_targetDist.2
  have hpos := tm.targetDist_pos
  -- the target comes within 2¹⁶ counts
  have hit : (tm.count (tm.targetDist - 1)).Hits := by
    rw [hits_iff, targetDist_count (by omega)]
    omega
  have htarget := (hsteady (tm.targetDist - 1) (by unfold lostCounts; omega)).target
  rw [iterate_turn_lt (by omega)] at htarget
  obtain ⟨hflag, hirq⟩ := htarget hit
  refine ⟨hflag, hirq, ?_⟩
  split_ifs with hlaps
  · obtain ⟨k, hk⟩ : ∃ k, lostCounts = k + tm.targetDist := ⟨lostCounts - tm.targetDist, by
      unfold lostCounts
      omega⟩
    have hzero := hback
    rw [hk, iterate_add_apply, iterate_turn_target tm hlaps] at hzero
    have hlap := iterate_turn_zero hlaps k
    rw [hzero] at hlap
    have htpos : 0 < tm.target.toNat := by
      have : tm.target.toNat ≠ 0 := fun h => hlaps.2 (BitVec.eq_of_toNat_eq h)
      omega
    have hlt : tm.counter < tm.target := by
      have := Nat.mod_lt k htpos
      rw [← hlap] at this
      exact this
    have hround := iterate_turn_below hlaps hlt lostCounts
    rw [hback] at hround
    refine ⟨hlt, ?_⟩
    have hdvd : tm.target.toNat ∣ _ := Nat.dvd_sub_mod (lostCounts + tm.counter.toNat)
    rwa [← hround, Nat.add_sub_cancel] at hdvd
  · have hover := tm.overflowDist_pos
    have hle : tm.overflowDist ≤ 0x10000 := Nat.sub_le _ _
    have hwrap := (hsteady (tm.overflowDist - 1) (by unfold lostCounts; omega)).overflow
    rw [iterate_turn_free hlaps] at hwrap
    refine hwrap ?_
    rw [Wraps, ← BitVec.toNat_inj, count_counter, BitVec.toNat_ofNat]
    unfold overflowDist at hover hle ⊢
    omega

theorem times_lostCounts_iff : times timerTickOne lostCounts tm = (tm, []) ↔ tm.Unseen := by
  refine ⟨unseen_of_times, fun h => ?_⟩
  rw [times_steady fun j _ => h.steady j, h.iterate]

end

/-! ## 4. Divided clocks -/

open BitVec

section
variable {t : Fin 3} {ch : Channel} {tm tm' : Timer}

def Counted (t : Fin 3) (ch : Channel) : Prop := ch.frac.toNat < timerDivisor t ch.timer

/-- `counts` ticks of the counter, and `frac` cycles over -/
def spun (counts frac : Nat) (tm : Timer) : Channel × List Fire :=
  (⟨(times timerTickOne counts tm).1, BitVec.ofNat 32 frac⟩, (times timerTickOne counts tm).2)

theorem timerDivisor_cases (t : Fin 3) (tm : Timer) : timerDivisor t tm = 1 ∨ timerDivisor t tm = 8 ∨
    timerDivisor t tm = 2146 ∨ timerDivisor t tm = 5 := by
  unfold timerDivisor
  split_ifs <;> simp

theorem timerDivisor_pos (t : Fin 3) (tm : Timer) : 0 < timerDivisor t tm := by
  rcases timerDivisor_cases t tm with h | h | h | h <;> omega

theorem timerDivisor_le (t : Fin 3) (tm : Timer) : timerDivisor t tm ≤ 2146 := by
  rcases timerDivisor_cases t tm with h | h | h | h <;> omega

theorem timerDivisor_congr (h : clockSource tm' = clockSource tm) :
    timerDivisor t tm' = timerDivisor t tm := by
  unfold timerDivisor timerUsesSysclk
  rw [h]

theorem clockSource_congr (h8 : tm'.has 8 = tm.has 8) (h9 : tm'.has 9 = tm.has 9) :
    clockSource tm' = clockSource tm := by
  apply eq_of_getLsbD_eq
  intro i hi
  rw [clockSource, clockSource, getLsbD_and, getLsbD_and, getLsbD_ushiftRight,
    getLsbD_ushiftRight]
  obtain rfl | rfl | htwo : i = 0 ∨ i = 1 ∨ 2 ≤ i := by omega
  · exact congrArg (· && _) h8
  · exact congrArg (· && _) h9
  · have hmask : (3#32).getLsbD i = false :=
      Nat.testBit_lt_two_pow ((by decide : 3 < 2 ^ 2).trans_le (Nat.pow_le_pow_right (by decide) htwo))
    rw [hmask, Bool.and_false, Bool.and_false]

theorem Same.clockSource (h : Same tm tm') : Timers.clockSource tm' = Timers.clockSource tm :=
  clockSource_congr (h.has 8 (by decide) (by simp [Volatile])) (h.has 9 (by decide) (by simp [Volatile]))

theorem timerAdvanceDivided_eq {d : Word} (hd : d ≠ 0#32) (c : Word) (ch : Channel) :
    timerAdvanceDivided c d ch = spun ((ch.frac.toNat + c.toNat) % 2 ^ 32 / d.toNat)
      ((ch.frac.toNat + c.toNat) % 2 ^ 32 % d.toNat) ch.timer := by
  have hdiv : ((ch.frac + c) / d).toNat = (ch.frac.toNat + c.toNat) % 2 ^ 32 / d.toNat := by
    rw [toNat_udiv, toNat_add]
  have hmod : (ch.frac + c) % d = BitVec.ofNat 32 ((ch.frac.toNat + c.toNat) % 2 ^ 32 % d.toNat) := by
    rw [← toNat_add, ← toNat_umod, ofNat_toNat, setWidth_eq]
  simp only [timerAdvanceDivided, if_neg hd, hmod, spun, ← hdiv, advance_eq_times]
  split_ifs with hzero
  · rfl
  · have : (ch.frac + c) / d = 0#32 := by simpa using hzero
    simp [this]

theorem channelAdvance_eq (h : Counted t ch) (c : Word) :
    channelAdvance t c ch = spun ((ch.frac.toNat + c.toNat) % 2 ^ 32 / timerDivisor t ch.timer)
      ((ch.frac.toNat + c.toNat) % 2 ^ 32 % timerDivisor t ch.timer) ch.timer := by
  unfold Counted at h
  unfold channelAdvance timerDivisor at *
  split_ifs at h ⊢ with h8 hsys h1 h0
  · exact timerAdvanceDivided_eq (by decide) c ch
  · have hfrac : ch.frac = 0#32 := eq_of_toNat_eq (by simpa using h)
    have hc := c.isLt
    simp [spun, advance_eq_times, hfrac, Nat.mod_one, Nat.mod_eq_of_lt hc]
  · exact timerAdvanceDivided_eq (by decide) c ch
  · exact timerAdvanceDivided_eq (by decide) c ch
  · -- the third counter has no other clocks
    obtain rfl : t = 2 := by omega
    rcases Words.and_three_cases (ch.timer.mode >>> 8) with hs | hs | hs | hs <;>
      simp [timerUsesSysclk, clockSource, hs] at h8 hsys

theorem counted_spun (n m : Nat) (tm : Timer) : Counted t (spun n (m % timerDivisor t tm) tm).1 := by
  have hpos := timerDivisor_pos t tm
  have hlt := Nat.mod_lt m hpos
  have hle := timerDivisor_le t tm
  unfold Counted spun
  rw [timerDivisor_congr (same_times n tm).clockSource, toNat_ofNat, Nat.mod_eq_of_lt (by omega)]
  exact hlt

theorem Counted.channelAdvance (h : Counted t ch) (c : Word) : Counted t (channelAdvance t c ch).1 := by
  rw [channelAdvance_eq h]
  exact counted_spun ..

theorem Counted.onTimer (h : Counted t ch) {f : Timer → Timer}
    (hf : clockSource (f ch.timer) = clockSource ch.timer) : Counted t (ch.onTimer f) := by
  unfold Counted Channel.onTimer
  rw [timerDivisor_congr hf]
  exact h

theorem same_nudge (t : Fin 3) (tm : Timer) : Same tm (nudge t tm) := by
  have hcount (tm : Timer) (c : BitVec 16) : Same tm { tm with counter := c } :=
    ⟨rfl, fun _ _ _ => rfl, fun _ _ h => h⟩
  have hflag (tm : Timer) : Same tm (tm.flag targetFlag) := same_flag (by simp [Volatile])
  unfold nudge
  dsimp only
  generalize (if t = 2 ∧ tm.has clkSrc1 then 1#16 else 8#16) = inc
  split_ifs
  · exact (hcount tm _).trans ((hflag _).trans (hcount _ _))
  · exact (hcount tm _).trans (hflag _)
  · exact hcount tm _

end

/-! ## 5. Every reachable state -/
section
variable {s : State} {blockCycles : Bool}

def AllCounted (s : State) : Prop := ∀ t, Counted t (s t)

theorem AllCounted.modify (h : AllCounted s) {t : Fin 3} {f : Channel → Channel}
    (hf : Counted t (f (s t))) : AllCounted (s.modify t f) := by
  intro i
  unfold State.modify
  by_cases hi : i = t
  · subst hi
    rwa [Function.update_self]
  · rw [update_of_ne hi]
    exact h i

theorem AllCounted.timersRead (h : AllCounted s) (addr : Word) :
    AllCounted (timersRead blockCycles addr s).1 := by
  unfold Timers.timersRead
  split
  · exact h
  · rename_i t reg _
    have hclear : clockSource ((s t).timer.setMode ((s t).timer.mode &&&
        ~~~(bit targetFlag ||| bit overflowFlag))) = clockSource (s t).timer := by
      refine clockSource_congr ?_ ?_ <;> rw [has_clear (by decide), getLsbD_or,
        bit_getLsbD (by decide), bit_getLsbD (by decide)] <;> simp
    split_ifs
    · exact h
    · exact h.modify ((h t).onTimer (same_nudge t _).clockSource)
    · exact h.modify ((h t).onTimer hclear)
    · exact h
    · exact h

theorem AllCounted.timersWrite (h : AllCounted s) (addr value : Word) :
    AllCounted (timersWrite addr value s) := by
  unfold Timers.timersWrite
  split
  · exact h
  · split_ifs
    · exact h.modify ((h _).onTimer rfl)
    · exact h.modify (timerDivisor_pos ..)
    · exact h.modify ((h _).onTimer rfl)
    · exact h

theorem AllCounted.timersAdvance (h : AllCounted s) (c : Word) : AllCounted (timersAdvance c s).1 := by
  unfold Timers.timersAdvance
  split_ifs
  · exact h
  · exact fun t => (h t).channelAdvance c

theorem Counted.ticks {t : Fin 3} {ch : Channel} (h : Counted t ch) (n : Int) : Counted t (ch.ticks n) :=
  h.onTimer (same_times n.toNat ch.timer).clockSource

theorem AllCounted.timersTick (h : AllCounted s) (c : Int) : AllCounted (timersTick c s) := by
  have hfirst : AllCounted (if timerUsesSysclk 1 (s 1).timer then s else s.modify 1 (.ticks 263)) := by
    split_ifs
    · exact h
    · exact h.modify ((h 1).ticks 263)
  unfold Timers.timersTick
  generalize (if timerUsesSysclk 1 (s 1).timer then s else s.modify 1 (.ticks 263)) = s' at hfirst ⊢
  intro t
  dsimp only
  split_ifs
  · exact (hfirst t).ticks c
  · exact (hfirst t).ticks _
  · exact hfirst t

theorem Reached.counted (h : Reached blockCycles s) : AllCounted s := by
  refine Runs.Reached.invariant (I := AllCounted) ?_ ?_ h
  · rintro s rfl t
    exact timerDivisor_pos ..
  · rintro op s s' hs - hstep
    obtain rfl := Option.some.inj hstep
    cases op with
    | read addr => exact hs.timersRead addr
    | write addr value => exact hs.timersWrite addr value
    | advance c => exact hs.timersAdvance c
    | tick c => exact hs.timersTick c

end

/-! ## 6. The distance, and the cut -/
variable {tm : Timer} {d n a b : Nat}

section
variable {s : State} {t : Fin 3} {ch : Channel} {iMask c : Word}

theorem ticksToIrq_pos (tm : Timer) : 0 < ticksToIrq tm := by
  have ht := tm.targetDist_pos
  have ho := tm.overflowDist_pos
  unfold ticksToIrq
  split_ifs <;> omega

theorem clear_of_lt (h : n < ticksToIrq tm) : Clear n tm := by
  unfold ticksToIrq at h
  refine ⟨fun harm => ?_, fun harm => ?_⟩
  · rw [if_pos harm] at h
    omega
  · rw [harm] at h
    simp only [if_true] at h
    omega

theorem clear_of_unarmed (h : tm.has irqTarget = false ∧ tm.has irqOverflow = false)
    (n : Nat) : Clear n tm :=
  ⟨fun harm => absurd harm (by simp [h.1]), fun harm => absurd harm (by simp [h.2])⟩

theorem cyclesToIrq_pos (h : Counted t ch) : 0 < cyclesToIrq iMask t ch := by
  have hticks := ticksToIrq_pos ch.timer
  have hle : timerDivisor t ch.timer ≤ ticksToIrq ch.timer * timerDivisor t ch.timer :=
    Nat.le_mul_of_pos_left _ hticks
  unfold Counted at h
  unfold cyclesToIrq
  dsimp only
  split_ifs <;> omega

theorem channelAdvance_silent (h : Counted t ch) (hmask : iMask.getLsbD (timerIrq t) = true)
    (hc : c.toNat < cyclesToIrq iMask t ch) : (channelAdvance t c ch).2 = [] := by
  rw [channelAdvance_eq h]
  refine Clear.times ?_
  unfold cyclesToIrq at hc
  rw [if_neg (by simp [hmask])] at hc
  dsimp only at hc
  split_ifs at hc with harm hnone hfrac
  · exact clear_of_unarmed harm _
  · -- an armed counter is at most 2¹⁶ counts from its event
    have hbound := ch.timer.toNat_targetDist.2
    have hover : ch.timer.overflowDist ≤ 0x10000 := Nat.sub_le _ _
    unfold ticksToIrq at hnone
    exfalso
    cases ht : ch.timer.has irqTarget <;> cases ho : ch.timer.has irqOverflow <;>
      simp [ht, ho] at harm hnone <;> omega
  · refine clear_of_lt ?_
    rw [Nat.div_lt_iff_lt_mul (timerDivisor_pos ..)]
    omega
  · simp at hc

theorem cyclesToIrq_le (iMask : Word) (s : State) (t : Fin 3) :
    timersCyclesToIrq iMask s ≤ cyclesToIrq iMask t (s t) := by
  unfold timersCyclesToIrq
  simp only [foldl_cons, foldl_nil]
  obtain rfl | rfl | rfl : t = 0 ∨ t = 1 ∨ t = 2 := by omega
  all_goals omega

def irqsOf (t : Fin 3) (l : List (Fin 3 × Fire)) : List Fire :=
  l.filterMap fun p => if p.1 = t then some p.2 else none

theorem irqsOf_append (l l' : List (Fin 3 × Fire)) : irqsOf t (l ++ l') = irqsOf t l ++ irqsOf t l' :=
  filterMap_append

theorem irqsOf_map (i : Fin 3) (l : List Fire) : irqsOf t (l.map (i, ·)) = if i = t then l else [] := by
  unfold irqsOf
  split_ifs with h
  · simp [h]
  · simp [h]

theorem channelAdvance_zero (h : Counted t ch) : channelAdvance t 0#32 ch = (ch, []) := by
  have hlt := ch.frac.isLt
  rw [channelAdvance_eq h]
  simp [spun, Nat.mod_eq_of_lt hlt, Nat.div_eq_of_lt h, Nat.mod_eq_of_lt h]

theorem timersAdvance_state (h : AllCounted s) (c : Word) (t : Fin 3) :
    (timersAdvance c s).1 t = (channelAdvance t c (s t)).1 := by
  unfold timersAdvance
  split_ifs with hc
  · rw [hc, channelAdvance_zero (h t)]
  · rfl

theorem irqsOf_timersAdvance (h : AllCounted s) (c : Word) (t : Fin 3) :
    irqsOf t (timersAdvance c s).2 = (channelAdvance t c (s t)).2 := by
  unfold timersAdvance
  split_ifs with hc
  · rw [hc, channelAdvance_zero (h t)]
    rfl
  · simp only [flatMap_cons, flatMap_nil, irqsOf_append, irqsOf_map, append_nil]
    obtain rfl | rfl | rfl : t = 0 ∨ t = 1 ∨ t = 2 := by omega
    all_goals simp

/-- Fraction and whole advance pass 2³², but neither of the two parts does. -/
def Loses (frac divisor a b : Nat) : Prop :=
  frac + a < 2 ^ 32 ∧ (frac + a) % divisor + b < 2 ^ 32 ∧ 2 ^ 32 ≤ frac + a + b

/-- The advance of one counter may be cut into `a` and `b`. -/
def Carried (t : Fin 3) (ch : Channel) (a b : Word) : Prop :=
  Loses ch.frac.toNat (timerDivisor t ch.timer) a.toNat b.toNat →
    timerDivisor t ch.timer = 8 ∧ ch.timer.Unseen

/-- Two parts of an advance of one counter, one after the other -/
def cut (t : Fin 3) (a b : Word) : Channel → Channel × List Fire :=
  andThen (channelAdvance t a) (channelAdvance t b)

/-- The cycles counted by the first and by the second part -/
def firstPart (frac a : Nat) : Nat := (frac + a) % 2 ^ 32
def secondPart (frac d a b : Nat) : Nat := (firstPart frac a % d + b) % 2 ^ 32

theorem cut_eq (h : Counted t ch) (a b : Word) :
    cut t a b ch = spun (firstPart ch.frac.toNat a.toNat / timerDivisor t ch.timer +
        secondPart ch.frac.toNat (timerDivisor t ch.timer) a.toNat b.toNat / timerDivisor t ch.timer)
      (secondPart ch.frac.toNat (timerDivisor t ch.timer) a.toNat b.toNat % timerDivisor t ch.timer)
      ch.timer := by
  have hsecond := channelAdvance_eq (h.channelAdvance a) b
  have hdiv : timerDivisor t (channelAdvance t a ch).1.timer = timerDivisor t ch.timer := by
    rw [channelAdvance_eq h]
    exact timerDivisor_congr (same_times ..).clockSource
  have hlt := Nat.mod_lt (firstPart ch.frac.toNat a.toNat) (timerDivisor_pos t ch.timer)
  have hle := timerDivisor_le t ch.timer
  rw [cut, andThen, hsecond, hdiv, channelAdvance_eq h]
  unfold firstPart at hlt
  simp only [spun, toNat_ofNat, secondPart, firstPart, times_add, andThen]
  rw [Nat.mod_eq_of_lt (a := _ % timerDivisor t ch.timer) (by omega)]

theorem parts_of_not_loses {frac : Nat} (hd : frac < d) (hle : d ≤ 2146) (hab : a + b < 2 ^ 32)
    (h : ¬ Loses frac d a b) :
    (frac + (a + b)) % 2 ^ 32 = d * (firstPart frac a / d) + secondPart frac d a b := by
  have hq := Nat.div_add_mod (firstPart frac a) d
  have hr := Nat.mod_lt (firstPart frac a) (by omega : 0 < d)
  unfold secondPart
  unfold Loses at h
  generalize hx : firstPart frac a / d = q at *
  generalize hm : d * q = dq at *
  by_cases hwrap : frac + a < 2 ^ 32
  · have hfirst : firstPart frac a = frac + a := Nat.mod_eq_of_lt hwrap
    rw [hfirst] at hq hr ⊢
    generalize (frac + a) % d = r at *
    omega
  · have hfirst : firstPart frac a = frac + a - 2 ^ 32 := by
      unfold firstPart
      omega
    generalize firstPart frac a % d = r at *
    omega

theorem parts_of_loses {frac : Nat} (hd : frac < d) (hab : a + b < 2 ^ 32) (h : Loses frac d a b) :
    (frac + (a + b)) % 2 ^ 32 < d ∧
      d * (firstPart frac a / d) + secondPart frac d a b = (frac + (a + b)) % 2 ^ 32 + 2 ^ 32 := by
  obtain ⟨hfirst, hsecond, hwhole⟩ := h
  have hpart : firstPart frac a = frac + a := Nat.mod_eq_of_lt hfirst
  have hq := Nat.div_add_mod (frac + a) d
  rw [secondPart, hpart, Nat.mod_eq_of_lt hsecond]
  generalize hm : d * ((frac + a) / d) = dq at *
  omega

theorem spun_eq_still_iff {f g : Nat} :
    spun n f tm = spun 0 g tm ↔
      times timerTickOne n tm = (tm, []) ∧ BitVec.ofNat 32 f = BitVec.ofNat 32 g := by
  simp only [spun, times_zero, Prod.ext_iff, Channel.mk.injEq]
  tauto

theorem ofNat_inj_of_lt (ha : a < d) (hb : b < d) (hd : d ≤ 2146)
    (h : BitVec.ofNat 32 a = BitVec.ofNat 32 b) : a = b := by
  rw [← toNat_inj, toNat_ofNat, toNat_ofNat] at h
  omega

theorem lost_shows {rest : Nat} (hd : d = 2146 ∨ d = 5) (hlt : rest < d) :
    ¬ spun n ((rest + 2 ^ 32) % d) tm = spun 0 rest tm := by
  rw [spun_eq_still_iff]
  rintro ⟨-, hfrac⟩
  have hsame := ofNat_inj_of_lt (Nat.mod_lt _ (by omega)) hlt (by omega) hfrac
  rcases hd with rfl | rfl
  · norm_num at hsame
    omega
  · norm_num at hsame
    omega

theorem lost_eighth_iff {rest : Nat} (hlt : rest < 8) :
    spun ((rest + 2 ^ 32) / 8) ((rest + 2 ^ 32) % 8) tm = spun 0 rest tm ↔ tm.Unseen := by
  have hcount : (rest + 2 ^ 32) / 8 = lostCounts := by
    unfold lostCounts
    omega
  have hfrac : (rest + 2 ^ 32) % 8 = rest := by omega
  rw [hcount, hfrac, spun_eq_still_iff, times_lostCounts_iff]
  exact and_iff_left rfl

theorem cut_iff (h : Counted t ch) {a b : Word} (hab : a.toNat + b.toNat < 2 ^ 32) :
    cut t a b ch = channelAdvance t (a + b) ch ↔ Carried t ch a b := by
  have hsum : (a + b).toNat = a.toNat + b.toNat := by
    rw [toNat_add, Nat.mod_eq_of_lt hab]
  have hd : ch.frac.toNat < timerDivisor t ch.timer := h
  have hpos := timerDivisor_pos t ch.timer
  have hcases := timerDivisor_cases t ch.timer
  rw [cut_eq h, channelAdvance_eq h, hsum]
  unfold Carried
  generalize timerDivisor t ch.timer = d at *
  generalize ch.frac.toNat = frac at *
  by_cases hl : Loses frac d a.toNat b.toNat
  · obtain ⟨hlt, hparts⟩ := parts_of_loses hd hab hl
    have hdiv := Nat.mul_add_div hpos (firstPart frac a.toNat / d) (secondPart frac d a.toNat b.toNat)
    have hmod := Nat.mul_add_mod d (firstPart frac a.toNat / d) (secondPart frac d a.toNat b.toNat)
    rw [hparts] at hdiv hmod
    rw [← hdiv, ← hmod, Nat.div_eq_of_lt hlt, Nat.mod_eq_of_lt hlt, forall_prop_of_true hl]
    obtain rfl | rfl | hshow := hcases
    · -- an undivided clock has no fraction to carry
      exact absurd hl.2.2 (by omega)
    · rw [lost_eighth_iff hlt]
      exact (and_iff_right rfl).symm
    · refine iff_of_false (lost_shows hshow hlt) fun hboth => ?_
      omega
  · have hle : d ≤ 2146 := by omega
    rw [parts_of_not_loses hd hle hab hl, Nat.mul_add_div hpos, Nat.mul_add_mod]
    simp [hl]

/-- The advance may be cut into `a` and `b`: the same counters, and the same interrupts of each. -/
def Cuts (s : State) (a b : Word) : Prop :=
  let first := timersAdvance a s
  let second := timersAdvance b first.1
  let whole := timersAdvance (a + b) s
  second.1 = whole.1 ∧ ∀ t, irqsOf t (first.2 ++ second.2) = irqsOf t whole.2

theorem cuts_iff (h : AllCounted s) {a b : Word} (hab : a.toNat + b.toNat < 2 ^ 32) :
    Cuts s a b ↔ ∀ t, Carried t (s t) a b := by
  have hfirst := h.timersAdvance a
  have hboth (t : Fin 3) : cut t a b (s t) = channelAdvance t (a + b) (s t) ↔
      (timersAdvance b (timersAdvance a s).1).1 t = (timersAdvance (a + b) s).1 t ∧
      irqsOf t ((timersAdvance a s).2 ++ (timersAdvance b (timersAdvance a s).1).2) =
        irqsOf t (timersAdvance (a + b) s).2 := by
    rw [irqsOf_append, irqsOf_timersAdvance h, irqsOf_timersAdvance h, irqsOf_timersAdvance hfirst,
      timersAdvance_state hfirst, timersAdvance_state h, timersAdvance_state h, cut, andThen,
      Prod.ext_iff]
  simp only [← cut_iff (h _) hab, hboth, forall_and, Cuts, funext_iff]

/-- From reset on, whatever is written, read and advanced: fewer cycles than `timers_cycles_to_irq` raise
no unmasked timer interrupt, the fraction of each clock is less than its divisor and the distance is not
zero; and an advance may be cut into `a` and `b` exactly when no carry is lost that shows. -/
theorem timer_distance_safe {blockCycles : Bool} (hs : Reached blockCycles s) :
    (∀ iMask c : Word, c.toNat < timersCyclesToIrq iMask s →
      ∀ p ∈ (timersAdvance c s).2, p.2.raised = true → iMask.getLsbD (timerIrq p.1) = false) ∧
    (∀ t, (s t).frac.toNat < timerDivisor t (s t).timer) ∧
    (∀ iMask, 1 ≤ timersCyclesToIrq iMask s) ∧
    ∀ a b : Word, a.toNat + b.toNat < 2 ^ 32 → (Cuts s a b ↔ ∀ t, Carried t (s t) a b) := by
  have hall := hs.counted
  refine ⟨fun iMask c hc p hp _ => ?_, hall, fun iMask => ?_, fun a b => cuts_iff hall⟩
  · by_contra hmask
    have hsilent := channelAdvance_silent (hall p.1) (by simpa using hmask)
      (hc.trans_le (cyclesToIrq_le iMask s p.1))
    rw [← irqsOf_timersAdvance hall, irqsOf, filterMap_eq_nil_iff] at hsilent
    exact absurd (hsilent p hp) (by simp)
  · have hpos (t : Fin 3) : 0 < cyclesToIrq iMask t (s t) := cyclesToIrq_pos (hall t)
    have h0 := hpos 0
    have h1 := hpos 1
    have h2 := hpos 2
    simp only [timersCyclesToIrq, foldl_cons, foldl_nil]
    omega

/-- The second counter on the hblank clock, armed for its target 10 -/
theorem timer_distance_safe_hblank :
    let s := timersWrite 0x1F801114#32 0x110#32 (timersWrite 0x1F801118#32 10#32 fun _ => {})
    timersCyclesToIrq 0x20#32 s = 21460 ∧ ∀ c : Word, c.toNat < 21460 →
      ∀ p ∈ (timersAdvance c s).2, p.2.raised = true → (0x20#32).getLsbD (timerIrq p.1) = false := by
  intro s
  have hreach : Reached true s :=
    .next (a := .write 0x1F801114#32 0x110#32)
      (.next (a := .write 0x1F801118#32 10#32) (.start rfl) trivial rfl) trivial rfl
  have hdist : timersCyclesToIrq 0x20#32 s = 21460 := by decide +kernel
  refine ⟨hdist, fun c hc => (timer_distance_safe hreach).1 0x20#32 c ?_⟩
  rw [hdist]
  exact hc

/-- The second counter on the hblank clock, one cycle short of a count: an advance by 2³² − 1 loses what
an advance by 1 and one by 2³² − 2 count. -/
theorem whole_advance_loses_carry :
    let s := (timersAdvance 2145#32 (timersWrite 0x1F801114#32 0x100#32 fun _ => {})).1
    Reached true s ∧ ¬ Cuts s 1#32 0xFFFFFFFE#32 := by
  intro s
  have hreach : Reached true s :=
    .next (a := .advance 2145#32)
      (.next (a := .write 0x1F801114#32 0x100#32) (.start rfl) trivial rfl) trivial rfl
  refine ⟨hreach, ?_⟩
  rw [cuts_iff hreach.counted (by decide)]
  intro hcarried
  have hdiv : timerDivisor 1 (s 1).timer = 2146 := by decide +kernel
  have hlost : Loses (s 1).frac.toNat (timerDivisor 1 (s 1).timer) (1#32).toNat (0xFFFFFFFE#32).toNat := by
    unfold Loses
    decide
  have height := (hcarried 1 hlost).1
  omega

end

end PsxRecomp.Timers
