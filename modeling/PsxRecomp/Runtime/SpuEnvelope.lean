import PsxRecomp.Lib.Runs
import PsxRecomp.Runtime.Spu
import Mathlib.Tactic.Linarith

/-!
# `Runtime/SpuEnvelope.lean` — safety and progress of the envelopes

Progress is a ranking argument: between two changes of the level the divider needs a bounded number of
samples, and a change is by at least one. It has an exception. `voice_next_sample` puts a voice whose
program ends without a repeat into release and clears the divider, and then plays on into whatever
blocks follow. A voice in attack does not reach the top then; and if those blocks end, too, the divider
is cleared over and over, and a slow release never comes to an end (`ended_program_keeps_sounding`).
-/

set_option autoImplicit false

namespace PsxRecomp.Spu

open BitVec State

/-! ## 1. Rates -/

/-- The smallest `divinco` that a rate comes to, with the curve bent or not -/
def minDivinco (speed : Nat) : Nat := max 1 ((vcRate speed false).2 >>> 2)

theorem vcRate_rising : ∀ speed < 128,
    4 ≤ (vcRate speed false).1 ∧ (vcRate speed false).1 ≤ 14336 ∧ (vcRate speed false).2 ≤ 32768 := by
  decide +kernel

theorem vcRate_falling : ∀ speed < 128,
    -16384 ≤ (vcRate speed true).1 ∧ (vcRate speed true).1 ≤ -5 ∧
      (vcRate speed true).2 = (vcRate speed false).2 := by
  decide +kernel

section
variable {zs speed : Nat} {logMode : Bool} {current : BitVec 16}

theorem rising_delta (hspeed : speed < 128) :
    let d := calcVcDelta zs speed logMode false false current
    1 ≤ d.1 ∧ d.1 ≤ 14336 ∧ d.2 ≤ 32768 ∧ (speed < zs → minDivinco speed ≤ d.2) := by
  obtain ⟨hlo, hhi, hdiv⟩ := vcRate_rising speed hspeed
  unfold calcVcDelta vcBend minDivinco
  generalize vcRate speed false = rate at *
  obtain ⟨increment, divinco⟩ := rate
  simp only [Int.shiftRight_eq_div_pow, Nat.shiftRight_eq_div_pow] at *
  split_ifs <;> simp_all <;> omega

theorem falling_delta (hspeed : speed < 128) (hcurrent : current.toNat ≤ 0x7FFF) :
    let d := calcVcDelta zs speed logMode true true current
    d.1 ≤ 0 ∧ -16384 ≤ d.1 ∧ (0 < current.toNat → d.1 ≤ -1) ∧ d.2 ≤ 32768 ∧
      (speed < zs → minDivinco speed ≤ d.2) := by
  obtain ⟨-, -, hdiv⟩ := vcRate_rising speed hspeed
  obtain ⟨hlo, hhi, heq⟩ := vcRate_falling speed hspeed
  have hint : current.toInt = current.toNat := toInt_eq_toNat_of_lt (by omega)
  unfold calcVcDelta vcBend minDivinco
  generalize vcRate speed true = rate at *
  obtain ⟨increment, divinco⟩ := rate
  have hprod₁ : (current.toNat : Int) * -16384 ≤ current.toNat * increment :=
    Int.mul_le_mul_of_nonneg_left hlo (Int.natCast_nonneg _)
  have hprod₂ : (current.toNat : Int) * increment ≤ current.toNat * -5 :=
    Int.mul_le_mul_of_nonneg_left hhi (Int.natCast_nonneg _)
  rw [hint]
  generalize (current.toNat : Int) * increment = product at *
  simp only [Int.shiftRight_eq_div_pow, Nat.shiftRight_eq_div_pow] at *
  split_ifs <;> simp_all <;> omega

end

/-- The fields are as wide as their registers have them. -/
structure Adsr.Ranged (a : Adsr) : Prop where
  ar : a.ar < 128
  dr : a.dr < 16
  sr : a.sr < 128
  rr : a.rr < 32

theorem adsrOf_ranged (lo hi : BitVec 16) : (adsrOf lo hi).Ranged := by
  have hmask (x mask : BitVec 32) : (x &&& mask).toNat ≤ mask.toNat := by
    exact Nat.and_le_right
  exact ⟨Nat.lt_succ_of_le (hmask _ 0x7F), Nat.lt_succ_of_le (hmask _ 0x0F),
    Nat.lt_succ_of_le (hmask _ 0x7F), Nat.lt_succ_of_le (hmask _ 0x1F)⟩

/-! ## 2. One step of the level -/

def Adsr.Rises (a : Adsr) (phase : AdsrPhase) : Prop :=
  phase = .attack ∨ phase = .sustain ∧ a.sustainDec = false

instance (a : Adsr) (phase : AdsrPhase) : Decidable (a.Rises phase) :=
  inferInstanceAs (Decidable (_ ∨ _))

def Adsr.speed (a : Adsr) : AdsrPhase → Nat
  | .attack => a.ar
  | .decay => a.dr <<< 2
  | .sustain => a.sr
  | .release => a.rr <<< 2

def stopSpeed : AdsrPhase → Nat
  | .attack => 0x7F
  | .decay => 0x1F <<< 2
  | .sustain => 0x7F
  | .release => 0x1F <<< 2

def Adsr.distance (a : Adsr) (phase : AdsrPhase) (level : BitVec 16) : Nat :=
  if a.Rises phase then 0x7FFF - level.toNat else level.toNat

section
variable {a : Adsr} {phase : AdsrPhase} {level : BitVec 16}

theorem distance_attack : a.distance .attack level = 0x7FFF - level.toNat := if_pos (.inl rfl)

theorem Adsr.Ranged.speed_lt (ha : a.Ranged) (phase : AdsrPhase) : a.speed phase < 128 := by
  have har := ha.ar
  have hdr := ha.dr
  have hsr := ha.sr
  have hrr := ha.rr
  cases phase <;> simp only [Adsr.speed, Nat.shiftLeft_eq] <;> omega

/-- Both directions: where a level out of range is put back to, and how far an update goes -/
theorem delta_cases (ha : a.Ranged) (hlevel : level.toNat ≤ 0x7FFF) (phase : AdsrPhase) :
    let d := a.delta level phase
    (a.Rises phase ∧ a.uoflowReset phase = 0x7FFF ∧ 1 ≤ d.1 ∧ d.1 ≤ 14336 ∨
      ¬ a.Rises phase ∧ a.uoflowReset phase = 0 ∧ d.1 ≤ 0 ∧ -16384 ≤ d.1 ∧ (0 < level.toNat → d.1 ≤ -1)) ∧
    d.2 ≤ 32768 ∧ (a.speed phase < stopSpeed phase → minDivinco (a.speed phase) ≤ d.2) := by
  have hspeed := ha.speed_lt phase
  cases phase with
  | attack =>
    obtain ⟨hlo, hhi, hdiv⟩ := rising_delta hspeed
    exact ⟨.inl ⟨.inl rfl, rfl, hlo, hhi⟩, hdiv⟩
  | decay | release =>
    obtain ⟨hhi, hlo, hless, hdiv⟩ := falling_delta hspeed hlevel
    exact ⟨.inr ⟨by simp [Adsr.Rises], rfl, hhi, hlo, hless⟩, hdiv⟩
  | sustain =>
    unfold Adsr.delta Adsr.uoflowReset Adsr.Rises
    cases a.sustainDec
    · obtain ⟨hlo, hhi, hdiv⟩ := rising_delta hspeed
      exact ⟨.inl ⟨.inr ⟨rfl, rfl⟩, rfl, hlo, hhi⟩, hdiv⟩
    · obtain ⟨hhi, hlo, hless, hdiv⟩ := falling_delta hspeed hlevel
      exact ⟨.inr ⟨by simp, rfl, hhi, hlo, hless⟩, hdiv⟩

theorem testBit_15 {d : Nat} (h : d < 65536) : d.testBit 15 = decide (32768 ≤ d) := by
  rw [Nat.testBit_eq_decide_div_mod_eq]
  exact decide_eq_decide.mpr (by omega)

theorem and_8000_ne_zero (x : BitVec 16) : x &&& 0x8000 ≠ 0 ↔ 32768 ≤ x.toNat := by
  rw [show (0x8000 : BitVec 16) = twoPow 16 15 from rfl, and_twoPow, getLsbD,
    testBit_15 x.isLt]
  by_cases h : 32768 ≤ x.toNat <;> simp [h]

/-- With the old level in range, what rolls over is what ends up with the high bit set. -/
theorem rollover_iff {prev : BitVec 16} (hprev : prev.toNat ≤ 0x7FFF) (x : BitVec 16) :
    (prev ^^^ x) &&& x &&& 0x8000 ≠ 0 ↔ x &&& 0x8000 ≠ 0 := by
  have hbit : prev.getLsbD 15 = false := by
    rw [getLsbD, testBit_15 prev.isLt]
    exact decide_eq_false (by omega)
  rw [show (0x8000 : BitVec 16) = twoPow 16 15 from rfl, and_twoPow, and_twoPow,
    getLsbD_and, getLsbD_xor, hbit, Bool.false_xor, Bool.and_self]

/-- An update stays in range and goes where the phase is bound for, by one at least. -/
theorem bump_spec (ha : a.Ranged) (hlevel : level.toNat ≤ 0x7FFF) (phase : AdsrPhase) :
    let new := a.bump phase level (a.delta level phase).1
    new.toNat ≤ 0x7FFF ∧ a.distance phase new ≤ a.distance phase level - 1 := by
  obtain ⟨hcases, -⟩ := delta_cases ha hlevel phase
  have hsum : ((BitVec.ofInt 16 (level.toNat + (a.delta level phase).1)).toNat : Int) =
      (level.toNat + (a.delta level phase).1) % 65536 := by
    rw [toNat_ofInt, Int.toNat_of_nonneg (Int.emod_nonneg _ (by decide))]
    rfl
  unfold Adsr.bump
  simp only [rollover_iff hlevel, and_8000_ne_zero, ite_self]
  unfold Adsr.distance
  generalize BitVec.ofInt 16 (level.toNat + (a.delta level phase).1) = sum at *
  obtain ⟨hphase, hreset, hlo, hhi⟩ | ⟨hphase, hreset, hhi, hlo, hless⟩ := hcases
  · rw [hreset, if_pos hphase, if_pos hphase]
    split_ifs
    · exact ⟨le_rfl, Nat.zero_le _⟩
    · exact ⟨by omega, by omega⟩
  · rw [hreset, if_neg hphase, if_neg hphase]
    split_ifs
    · exact ⟨by decide, Nat.zero_le _⟩
    · exact ⟨by omega, by omega⟩

end

/-! ## 3. The ranking -/

/-- A bound for the samples between two changes of the level -/
def period (speed : Nat) : Nat := 0x7FFF / minDivinco speed + 1

/-- A bound for the samples to go, `distance` away from where the level is bound for -/
def rank (speed distance divider : Nat) : Nat := distance * period speed - divider / minDivinco speed

/-- The samples that an attack or a release takes at most -/
def sampleBound (speed : Nat) : Nat := 0x7FFF * period speed + 1

section
variable {speed distance divider : Nat}

theorem rank_wait {divinco : Nat} (hdistance : 0 < distance) (hdivinco : minDivinco speed ≤ divinco)
    (hlt : divider + divinco < 0x8000) :
    rank speed distance (divider + divinco) + 1 ≤ rank speed distance divider := by
  have hmin : 1 ≤ minDivinco speed := le_max_left _ _
  have hstep : divider / minDivinco speed + 1 ≤ (divider + divinco) / minDivinco speed := by
    rw [← Nat.add_div_right _ hmin]
    exact Nat.div_le_div_right (by omega)
  have hlast : (divider + divinco) / minDivinco speed ≤ 0x7FFF / minDivinco speed :=
    Nat.div_le_div_right (by omega)
  have hturn : period speed ≤ distance * period speed := Nat.le_mul_of_pos_left _ hdistance
  unfold rank
  unfold period at hturn ⊢
  omega

theorem rank_change {distance' : Nat} (hless : distance' < distance) (hlt : divider < 0x8000) :
    rank speed distance' 0 + 1 ≤ rank speed distance divider := by
  have hlast : divider / minDivinco speed ≤ 0x7FFF / minDivinco speed :=
    Nat.div_le_div_right (by omega)
  have hturn : (distance' + 1) * period speed ≤ distance * period speed :=
    Nat.mul_le_mul_right _ hless
  rw [Nat.succ_mul] at hturn
  unfold rank
  unfold period at hturn ⊢
  rw [Nat.zero_div]
  omega

theorem rank_lt_sampleBound (speed divider : Nat) (hdistance : distance ≤ 0x7FFF) :
    rank speed distance divider < sampleBound speed :=
  Nat.lt_succ_of_le ((Nat.sub_le _ _).trans (Nat.mul_le_mul_right _ hdistance))

end

/-! ## 4. One step of the envelope -/

structure Envelope.Safe (e : Envelope) : Prop where
  level : e.level.toNat ≤ 0x7FFF
  divider : e.divider < 0x8000

section
variable {a : Adsr} {e : Envelope}

/-- The divider goes on, or the level changes. -/
theorem runIn_cases (ha : a.Ranged) (h : e.Safe) :
    (e.divider + (a.delta e.level e.phase).2 < 0x8000 ∧
      e.runIn a = { e with divider := e.divider + (a.delta e.level e.phase).2 }) ∨
    (0x8000 ≤ e.divider + (a.delta e.level e.phase).2 ∧
      (e.runIn a).level = a.bump e.phase e.level (a.delta e.level e.phase).1 ∧
      (e.runIn a).divider = 0 ∧ (e.phase ≠ .decay → (e.runIn a).phase = e.phase)) := by
  have hdivinco := (delta_cases ha h.level e.phase).2.1
  have hdivider := h.divider
  have hmod : (e.divider + (a.delta e.level e.phase).2) % 2 ^ 32 =
      e.divider + (a.delta e.level e.phase).2 := Nat.mod_eq_of_lt (by omega)
  unfold Envelope.runIn
  dsimp only
  rw [hmod, testBit_15 (by omega)]
  split_ifs with hfull hnext
  · rw [decide_eq_true_eq] at hfull
    exact .inr ⟨hfull, rfl, rfl, fun hdecay => absurd hnext.1 hdecay⟩
  · rw [decide_eq_true_eq] at hfull
    exact .inr ⟨hfull, rfl, rfl, fun _ => rfl⟩
  · rw [decide_eq_true_eq] at hfull
    exact .inl ⟨by omega, rfl⟩

theorem runIn_spec (ha : a.Ranged) (h : e.Safe) :
    (e.runIn a).Safe ∧ a.distance e.phase (e.runIn a).level ≤ a.distance e.phase e.level ∧
      (e.phase ≠ .decay → (e.runIn a).phase = e.phase) ∧
      (a.speed e.phase < stopSpeed e.phase → 0 < a.distance e.phase e.level →
        rank (a.speed e.phase) (a.distance e.phase (e.runIn a).level) (e.runIn a).divider + 1 ≤
          rank (a.speed e.phase) (a.distance e.phase e.level) e.divider) := by
  obtain ⟨-, -, hmin⟩ := delta_cases ha h.level e.phase
  obtain ⟨hrange, hless⟩ := bump_spec ha h.level e.phase
  obtain ⟨hlt, heq⟩ | ⟨-, hbump, hzero, hsame⟩ := runIn_cases ha h
  · rw [heq]
    exact ⟨⟨h.level, hlt⟩, le_rfl, fun _ => rfl, fun hspeed hpos => rank_wait hpos (hmin hspeed) hlt⟩
  · rw [← hbump] at hrange hless
    refine ⟨⟨hrange, by omega⟩, by omega, hsame, fun _ hpos => ?_⟩
    rw [hzero]
    exact rank_change (by omega) h.divider

theorem enterDecay_level (e : Envelope) : e.enterDecay.level = e.level := by
  unfold Envelope.enterDecay
  split_ifs <;> rfl

theorem enterDecay_of_ne (h : e.phase ≠ .attack) : e.enterDecay = e := if_neg fun hboth => h hboth.1

theorem Envelope.Safe.enterDecay (h : e.Safe) : e.enterDecay.Safe := by
  unfold Envelope.enterDecay
  split_ifs
  · exact ⟨h.level, h.divider⟩
  · exact h

theorem Envelope.Safe.run (ha : a.Ranged) (h : e.Safe) : (e.run a).Safe :=
  (runIn_spec ha h.enterDecay).1

/-- Attack does not lower the level, decay and release do not raise it. -/
theorem run_level (ha : a.Ranged) (h : e.Safe) :
    (e.enterDecay.phase = .attack → e.level.toNat ≤ (e.run a).level.toNat) ∧
      (e.enterDecay.phase = .decay ∨ e.enterDecay.phase = .release →
        (e.run a).level.toNat ≤ e.level.toNat) := by
  obtain ⟨hsafe, htoward, -⟩ := runIn_spec ha h.enterDecay
  have hbefore := h.level
  rw [enterDecay_level] at htoward
  unfold Envelope.run
  constructor
  · intro hphase
    rw [hphase, distance_attack, distance_attack] at htoward
    omega
  · rintro (hphase | hphase)
    all_goals
      rw [hphase] at htoward
      exact htoward

end

/-! ## 5. One sample of a voice -/

section
variable {v : Voice} {ram : Ram} {reg : Nat → BitVec 16}

theorem Envelope.Safe.refill (h : v.env.Safe) (ram : Ram) : (v.refill ram).env.Safe := by
  rw [refill_env]
  split_ifs
  · exact ⟨h.level, Nat.zero_lt_succ _⟩
  · exact h

theorem Envelope.Safe.play (h : v.env.Safe) (ram : Ram) (reg : Nat → BitVec 16) :
    (v.play ram reg).2.env.Safe := by
  rw [play_env]
  exact (h.refill ram).run (adsrOf_ranged _ _)

end

/-! ## 6. Histories -/

def Event.keyOnMask : Event → BitVec 32
  | .write addr value =>
    if addr = 0x1F801D88 then value &&& 0xFFFF
    else if addr = 0x1F801D8A then (value &&& 0xFFFF) <<< 16
    else 0
  | _ => 0

def Event.keyOffMask : Event → BitVec 32
  | .write addr value =>
    if addr = 0x1F801D8C then value &&& 0xFFFF
    else if addr = 0x1F801D8E then (value &&& 0xFFFF) <<< 16
    else 0
  | _ => 0

/-- The event plays a sample of voice `i`. -/
def samples (i : Fin 24) : Event → State → Bool
  | .frame, s => s.enabled && (s.voices i).active
  | _, _ => false

section
variable {s : State} {i : Fin 24} {e : Event}

theorem keyOn_voice (s : State) (mask : BitVec 32) (i : Fin 24) :
    (mask.getLsbD i = true ∧ ((s.keyOn mask).voices i).env = ⟨0, 0, .attack⟩) ∨
      (s.keyOn mask).voices i = s.voices i := by
  unfold keyOn
  dsimp only
  split_ifs with hbit
  · exact .inl ⟨hbit, rfl⟩
  · exact .inr rfl

theorem keyOff_voice (s : State) (mask : BitVec 32) (i : Fin 24) :
    (mask.getLsbD i = true ∧ (s.keyOff mask).voices i = (s.voices i).keyOff) ∨
      (s.keyOff mask).voices i = s.voices i := by
  unfold keyOff
  dsimp only
  split_ifs with hbit
  · exact .inl ⟨hbit, rfl⟩
  · exact .inr rfl

theorem write_voice (s : State) (addr : Nat) (value : BitVec 32) (i : Fin 24) :
    ((Event.write addr value).keyOnMask.getLsbD i = true ∧
      ((s.write addr value).voices i).env = ⟨0, 0, .attack⟩) ∨
    ((Event.write addr value).keyOffMask.getLsbD i = true ∧
      (s.write addr value).voices i = (s.voices i).keyOff) ∨
    (s.write addr value).voices i = s.voices i := by
  unfold write
  split_ifs with hrange
  · unfold writeEffect
    split_ifs with hon hon' hoff hoff'
    · rw [show (Event.write addr value).keyOnMask = value &&& 0xFFFF from if_pos hon]
      exact (keyOn_voice _ _ i).imp_right .inr
    · rw [show (Event.write addr value).keyOnMask = (value &&& 0xFFFF) <<< 16 from
        (if_neg hon).trans (if_pos hon')]
      exact (keyOn_voice _ _ i).imp_right .inr
    · rw [show (Event.write addr value).keyOffMask = value &&& 0xFFFF from if_pos hoff]
      exact .inr (keyOff_voice _ _ i)
    · rw [show (Event.write addr value).keyOffMask = (value &&& 0xFFFF) <<< 16 from
        (if_neg hoff).trans (if_pos hoff')]
      exact .inr (keyOff_voice _ _ i)
    all_goals exact .inr (.inr rfl)
  · exact .inr (.inr rfl)

/-- What an event does to a voice: it is keyed on or off, plays a sample, or is left alone. -/
theorem step_voice (e : Event) (s : State) (i : Fin 24) :
    (e.keyOnMask.getLsbD i = true ∧ ((s.step e).voices i).env = ⟨0, 0, .attack⟩) ∨
    (e.keyOffMask.getLsbD i = true ∧ (s.step e).voices i = (s.voices i).keyOff) ∨
    (samples i e s = true ∧ (s.step e).voices i = ((s.voices i).play s.ram (s.voiceReg i)).2) ∨
    (samples i e s = false ∧ (s.step e).voices i = s.voices i) := by
  cases e with
  | dmaWrite | cdPush | cdReset => exact .inr (.inr (.inr ⟨rfl, rfl⟩))
  | frame =>
    right; right
    unfold samples step renderFrame nextSample Voice.nextSample
    cases hon : s.enabled <;> cases hactive : (s.voices i).active <;> simp [hon, hactive]
  | write addr value =>
    obtain hon | hoff | hsame := write_voice s addr value i
    · exact .inl hon
    · exact .inr (.inl hoff)
    · exact .inr (.inr (.inr ⟨rfl, hsame⟩))

theorem frame_voice (h : samples i .frame s = true) :
    (s.step .frame).voices i = ((s.voices i).play s.ram (s.voiceReg i)).2 := by
  obtain ⟨hbit, -⟩ | ⟨hbit, -⟩ | ⟨-, hplay⟩ | ⟨hidle, -⟩ := step_voice .frame s i
  · exact absurd hbit (by simp [Event.keyOnMask])
  · exact absurd hbit (by simp [Event.keyOffMask])
  · exact hplay
  · cases h.symm.trans hidle

theorem frame_regs (h : s.enabled = true) :
    (s.step .frame).regs = s.regs ∧ (s.step .frame).ram = s.ram ∧ (s.step .frame).enabled = true := by
  have hkept : (s.step .frame).regs = s.regs ∧ (s.step .frame).ram = s.ram := by
    change s.renderFrame.2.regs = s.regs ∧ s.renderFrame.2.ram = s.ram
    unfold renderFrame
    rw [if_pos h]
    exact ⟨rfl, rfl⟩
  refine ⟨hkept.1, hkept.2, ?_⟩
  exact (congrArg (fun regs : Regs => (regs (regIndex 0x1F801DAA)).getLsbD 15) hkept.1).trans h

theorem Envelope.Safe.keyOff {v : Voice} (h : v.env.Safe) : v.keyOff.env.Safe := by
  unfold Voice.keyOff
  split_ifs
  · exact ⟨h.level, Nat.zero_lt_succ _⟩
  · exact h

def State.Safe (s : State) : Prop := ∀ i, (s.voices i).env.Safe

theorem State.Safe.step (e : Event) (s : State) (h : s.Safe) : (s.step e).Safe := by
  intro i
  obtain ⟨-, hon⟩ | ⟨-, hoff⟩ | ⟨-, hplay⟩ | ⟨-, hsame⟩ := step_voice e s i
  · rw [hon]
    exact ⟨by decide, by decide⟩
  · rw [hoff]
    exact (h i).keyOff
  · rw [hplay]
    exact (h i).play _ _
  · rw [hsame]
    exact h i

theorem safe_init (ram : Ram) : { State.init with ram := ram }.Safe := fun _ => ⟨Nat.zero_le _, Nat.zero_lt_succ _⟩

end

/-! ## 7. Progress -/

def State.adsr (s : State) (i : Fin 24) : Adsr := adsrOf (s.voiceReg i 4) (s.voiceReg i 5)

/-- The event leaves voice `i` to itself: its envelope registers keep their fields, and it is not keyed. -/
def Held (i : Fin 24) (e : Event) (s : State) : Prop :=
  e.keyOnMask.getLsbD i = false ∧ e.keyOffMask.getLsbD i = false ∧ (s.step e).adsr i = s.adsr i

/-- The program of voice `i` goes on: no sample is played behind a block that ends it without a
repeat. -/
def GoesOn (i : Fin 24) (e : Event) (s : State) : Prop :=
  samples i e s = true → ¬ (blockSamples ≤ (s.voices i).sampleIdx ∧ (s.voices i).programEnds = true)

section
variable {s : State} {i : Fin 24} {e : Event} {a : Adsr}

theorem held_voice (hheld : Held i e s) (hgoes : GoesOn i e s) :
    (samples i e s = true ∧ (s.voices i).active = true ∧
      ((s.step e).voices i).env = (s.voices i).env.run (s.adsr i) ∧
      ((s.step e).voices i).active =
        (if ((s.step e).voices i).env.phase = .release ∧ ((s.step e).voices i).env.level = 0 then false
        else (s.voices i).active)) ∨
    (samples i e s = false ∧ (s.step e).voices i = s.voices i) := by
  obtain ⟨hon, hoff, -⟩ := hheld
  obtain ⟨hbit, -⟩ | ⟨hbit, -⟩ | ⟨hplays, hplay⟩ | hsame := step_voice e s i
  · rw [hon] at hbit
    cases hbit
  · rw [hoff] at hbit
    cases hbit
  · left
    have hactive : (s.voices i).active = true := by
      cases e with
      | frame => exact (Bool.and_eq_true_iff.mp hplays).2
      | _ => cases hplays
    have henv := refill_env (s.voices i) s.ram
    rw [if_neg (hgoes hplays)] at henv
    rw [hplay]
    refine ⟨hplays, hactive, ?_, play_active _ _ _⟩
    rw [play_env, henv]
    rfl
  · exact .inr hsame

/-- A voice with envelope fields `a` in phase `p` -/
structure Bound (p : AdsrPhase) (i : Fin 24) (a : Adsr) (s : State) : Prop where
  adsr : s.adsr i = a
  safe : (s.voices i).env.Safe
  inPhase : (s.voices i).env.phase = p

def toGo (p : AdsrPhase) (i : Fin 24) (a : Adsr) (s : State) : Nat :=
  rank (a.speed p) (a.distance p (s.voices i).env.level) (s.voices i).env.divider

theorem bound_step {p : AdsrPhase} (ha : a.Ranged) (hp : p ≠ .decay) (hrate : a.speed p < stopSpeed p)
    (h : Bound p i a s) (hstay : (s.voices i).env.enterDecay = (s.voices i).env)
    (hok : Held i e s ∧ GoesOn i e s) :
    Bound p i a (s.step e) ∧
      ((samples i e s = false ∧ (s.step e).voices i = s.voices i) ∨
      (samples i e s = true ∧
        (p = .release ∧ ((s.step e).voices i).env.level = 0 → ((s.step e).voices i).active = false) ∧
        a.distance p ((s.step e).voices i).env.level ≤ a.distance p (s.voices i).env.level ∧
        (0 < a.distance p (s.voices i).env.level → toGo p i a (s.step e) + 1 ≤ toGo p i a s))) := by
  obtain ⟨hadsr, hsafe, rfl⟩ := h
  have hadsr' : (s.step e).adsr i = a := hok.1.2.2.trans hadsr
  obtain ⟨hplays, -, henv, hact⟩ | ⟨hidle, hsame⟩ := held_voice hok.1 hok.2
  · obtain ⟨hsafe', hle, hphase, hrank⟩ := runIn_spec ha hsafe
    rw [hadsr, Envelope.run, hstay] at henv
    rw [← henv] at hsafe' hle hphase hrank
    refine ⟨⟨hadsr', hsafe', hphase hp⟩, .inr ⟨hplays, ?_, hle, hrank hrate⟩⟩
    rintro ⟨hrelease, hzero⟩
    rw [hact, if_pos ⟨(hphase hp).trans hrelease, hzero⟩]
  · exact ⟨⟨hadsr', hsame ▸ hsafe, congrArg (·.env.phase) hsame⟩, .inl ⟨hidle, hsame⟩⟩

/-- A sample in attack reaches the top or brings it nearer. -/
theorem attack_step (ha : a.Ranged) (hrate : a.ar < 127)
    (h : Bound .attack i a s ∧ 0 < a.distance .attack (s.voices i).env.level)
    (hok : Held i e s ∧ GoesOn i e s) :
    ((s.step e).voices i).env.level = 0x7FFF ∨
      (Bound .attack i a (s.step e) ∧ 0 < a.distance .attack ((s.step e).voices i).env.level) ∧
      toGo .attack i a (s.step e) + (samples i e s).toNat ≤ toGo .attack i a s := by
  obtain ⟨hbound, hfar⟩ := h
  have hstay : (s.voices i).env.enterDecay = (s.voices i).env := by
    refine if_neg fun htop => ?_
    rw [htop.2, distance_attack] at hfar
    exact absurd hfar (by decide)
  obtain ⟨hbound', ⟨hidle, hsame⟩ | ⟨hplays, -, -, hrank⟩⟩ :=
    bound_step (p := .attack) ha (by decide) hrate hbound hstay hok
  · rw [hidle, toGo, hsame]
    exact .inr ⟨⟨hbound', hfar⟩, le_rfl⟩
  · rw [hplays]
    by_cases htop : 0 < a.distance .attack ((s.step e).voices i).env.level
    · exact .inr ⟨⟨hbound', htop⟩, hrank hfar⟩
    · have hle := hbound'.safe.level
      rw [distance_attack] at htop
      exact .inl (eq_of_toNat_eq (by show _ = 0x7FFF; omega))

/-- A sample in release silences the voice or brings that nearer. -/
theorem release_step (ha : a.Ranged) (hrate : a.rr < 31) (h : Bound .release i a s)
    (hok : Held i e s ∧ GoesOn i e s) :
    ((s.step e).voices i).active = false ∨ Bound .release i a (s.step e) ∧
      toGo .release i a (s.step e) + (samples i e s).toNat ≤ toGo .release i a s := by
  have hspeed : a.speed .release < stopSpeed .release := by
    show a.rr <<< 2 < 0x1F <<< 2
    omega
  have hstay := enterDecay_of_ne (e := (s.voices i).env) (by rw [h.inPhase]; decide)
  obtain ⟨hbound, ⟨hidle, hsame⟩ | ⟨hplays, hsilent, hle, hrank⟩⟩ :=
    bound_step ha (by decide) hspeed h hstay hok
  · rw [hidle, toGo, hsame]
    exact .inr ⟨hbound, le_rfl⟩
  · rw [hplays]
    by_cases hzero : ((s.step e).voices i).env.level = 0
    · exact .inl (hsilent ⟨rfl, hzero⟩)
    · have hpos : 0 < ((s.step e).voices i).env.level.toNat :=
        Nat.pos_of_ne_zero fun h => hzero (eq_of_toNat_eq h)
      exact .inr ⟨hbound, hrank (hpos.trans_le hle)⟩

end

/-! ## 8. The law -/

/-- A sample in attack does not lower the level, one in decay or release does not raise it. The phase is
the one that the sample's step of the envelope is made in. -/
def Monotone (i : Fin 24) (s : State) : Prop :=
  samples i .frame s = true →
    let phase := ((s.voices i).refill s.ram).env.enterDecay.phase
    (phase = .attack → (s.voices i).env.level.toNat ≤ ((s.step .frame).voices i).env.level.toNat) ∧
      (phase = .decay ∨ phase = .release →
        ((s.step .frame).voices i).env.level.toNat ≤ (s.voices i).env.level.toNat)

/-- Left to itself, with its program going on, voice `i` comes to the top of its attack and to the end of
its release within `sampleBound` samples. -/
def Progress (i : Fin 24) (s : State) : Prop :=
  ∀ es, Ranked.All State.step (fun e s => Held i e s ∧ GoesOn i e s) es s → (s.voices i).active = true →
    ((s.voices i).env.phase = .attack → (s.adsr i).ar < 127 →
      sampleBound (s.adsr i).ar ≤ Ranked.count State.step (samples i) es s →
      ∃ k ≤ es.length, ((Ranked.run State.step (es.take k) s).voices i).env.level = 0x7FFF) ∧
    ((s.voices i).env.phase = .release → (s.adsr i).rr < 31 →
      sampleBound ((s.adsr i).rr <<< 2) ≤ Ranked.count State.step (samples i) es s →
      ∃ k ≤ es.length, ((Ranked.run State.step (es.take k) s).voices i).active = false)

section
variable {s : State} {i : Fin 24}

theorem State.Safe.monotone (h : s.Safe) (i : Fin 24) : Monotone i s := by
  intro hplays phase
  have hlevel : ((s.voices i).refill s.ram).env.level = (s.voices i).env.level := by
    rw [refill_env]
    split_ifs <;> rfl
  rw [frame_voice hplays, play_env, ← hlevel]
  exact run_level (adsrOf_ranged _ _) ((h i).refill s.ram)

theorem State.Safe.progress (h : s.Safe) (i : Fin 24) : Progress i s := by
  intro es hall hactive
  have ha : (s.adsr i).Ranged := adsrOf_ranged _ _
  constructor
  · intro hphase hrate hcount
    by_cases hfar : 0 < (s.adsr i).distance .attack (s.voices i).env.level
    · have hrank : toGo .attack i (s.adsr i) s < sampleBound (s.adsr i).ar := by
        refine rank_lt_sampleBound _ _ ?_
        exact Nat.sub_le _ _
      exact Ranked.reaches (I := fun t => Bound .attack i (s.adsr i) t ∧
          0 < (s.adsr i).distance .attack (t.voices i).env.level)
        (G := fun t => (t.voices i).env.level = 0x7FFF)
        (R := toGo .attack i (s.adsr i)) (fun _ _ ht hok => attack_step ha hrate ht hok)
        ⟨⟨rfl, h i, hphase⟩, hfar⟩ hall (hrank.trans_le hcount)
    · have hle := (h i).level
      rw [distance_attack] at hfar
      have hlevel : (s.voices i).env.level = 0x7FFF := eq_of_toNat_eq (by show _ = 0x7FFF; omega)
      exact ⟨0, Nat.zero_le _, hlevel⟩
  · intro hphase hrate hcount
    have hrank : toGo .release i (s.adsr i) s < sampleBound ((s.adsr i).rr <<< 2) :=
      rank_lt_sampleBound _ _ (h i).level
    exact Ranked.reaches (I := Bound .release i (s.adsr i)) (G := fun t => (t.voices i).active = false)
      (R := toGo .release i (s.adsr i))
      (fun _ _ ht hok => release_step ha hrate ht hok) ⟨rfl, h i, hphase⟩ hall (hrank.trans_le hcount)

end

/-- **Envelopes are safe and make progress**, over every history and whatever is in sound RAM. The level
stays in 0..0x7FFF and the divider below 0x8000; a step in attack does not lower the level, one in decay
or release does not raise it; and as long as the voice's program goes on, its attack and its release
come to their end. -/
theorem envelope_law (ram : Ram) (history : List Event) (i : Fin 24) :
    let s := Ranked.run State.step history { State.init with ram := ram }
    (s.voices i).env.Safe ∧ Monotone i s ∧ Progress i s := by
  intro s
  have hsafe : s.Safe := Ranked.run_invariant State.Safe.step (safe_init ram) history
  exact ⟨hsafe i, hsafe.monotone i, hsafe.progress i⟩

/-! ## 9. A program that goes on -/

/-- Sound RAM in which no block has a flag -/
def silence : Ram := fun _ => 0

/-- Voice 0 at pitch 0x1000 with the fastest attack: keyed on -/
def keyedOn : List Event :=
  [.write 0x1F801DAA 0x8000, .write 0x1F801C04 0x1000, .write 0x1F801D88 1]

structure Sounding (s : State) : Prop where
  ram : s.ram = silence
  enabled : s.enabled = true
  voice : Endless (s.voices 0)

section
variable {s : State}

theorem Sounding.samples (h : Sounding s) : samples 0 .frame s = true :=
  Bool.and_eq_true_iff.mpr ⟨h.enabled, h.voice.active⟩

theorem Sounding.frame (h : Sounding s) : Sounding (s.step .frame) := by
  obtain ⟨-, hram, henabled⟩ := frame_regs h.enabled
  refine ⟨hram.trans h.ram, henabled, ?_⟩
  rw [frame_voice h.samples, h.ram]
  exact h.voice.play _

theorem Sounding.goesOn (h : Sounding s) : Held 0 .frame s ∧ GoesOn 0 .frame s := by
  refine ⟨⟨rfl, rfl, ?_⟩, fun _ hends => ?_⟩
  · unfold State.adsr voiceReg
    rw [(frame_regs h.enabled).1]
  · rw [h.voice.programEnds] at hends
    exact nomatch hends.2

theorem Sounding.frames (n : Nat) (h : Sounding s) :
    Ranked.All State.step (fun e s => Held 0 e s ∧ GoesOn 0 e s) (List.replicate n .frame) s ∧
      Ranked.count State.step (Spu.samples 0) (List.replicate n .frame) s = n := by
  induction n generalizing s with
  | zero => exact ⟨trivial, rfl⟩
  | succ n ih =>
    obtain ⟨hall, hcount⟩ := ih h.frame
    refine ⟨⟨h.goesOn, hall⟩, ?_⟩
    rw [List.replicate_succ, Ranked.count, hcount, h.samples, Nat.add_comm]
    rfl

end

theorem sounding_keyedOn : Sounding (Ranked.run State.step keyedOn { State.init with ram := silence }) where
  ram := rfl
  enabled := by decide +kernel
  voice := ⟨by decide +kernel, by decide +kernel, by decide +kernel⟩

/-- The attack of a voice that plays silence comes to its top. -/
theorem envelope_law_attack :
    let s := Ranked.run State.step keyedOn { State.init with ram := silence }
    ∃ k ≤ sampleBound 0,
      ((Ranked.run State.step (List.replicate k .frame) s).voices 0).env.level = 0x7FFF := by
  intro s
  obtain ⟨-, -, hprogress⟩ := envelope_law silence keyedOn 0
  obtain ⟨hall, hcount⟩ := sounding_keyedOn.frames (sampleBound 0)
  have hrate : (s.adsr 0).ar = 0 := by decide +kernel
  obtain ⟨k, hk, htop⟩ := (hprogress _ hall sounding_keyedOn.voice.active).1 (by decide +kernel)
    (by rw [hrate]; decide) (by rw [hrate, hcount])
  rw [List.length_replicate] at hk
  rw [List.take_replicate, Nat.min_eq_left hk] at htop
  exact ⟨k, hk, htop⟩

/-! ## 10. A program that ends over and over -/

/-- Sound RAM in which every block has the end flag, and none the repeat flag -/
def endsOnly : Ram := fun _ => 1

/-- Voice 0 at pitch 0x1000 with the fastest attack and release rate 30: keyed on, one frame, keyed off -/
def keyedOff : List Event :=
  [.write 0x1F801DAA 0x8000, .write 0x1F801C04 0x1000, .write 0x1F801C0A 0x001E, .write 0x1F801D88 1,
    .frame, .write 0x1F801D8C 1]

structure Stalled (s : State) : Prop where
  ram : s.ram = endsOnly
  enabled : s.enabled = true
  pitch : s.voiceReg 0 2 = 0x1000
  adsrLo : s.voiceReg 0 4 = 0
  adsrHi : s.voiceReg 0 5 = 0x1E
  active : (s.voices 0).active = true
  flags : (s.voices 0).flags = 1
  phase : (s.voices 0).phase = 0
  sampleIdx : (s.voices 0).sampleIdx ≤ blockSamples
  release : (s.voices 0).env.phase = .release
  level : (s.voices 0).env.level = 14336
  divider : (s.voices 0).env.divider ≤ (s.voices 0).sampleIdx

theorem stepPhase_one (fuel idx : Nat) : stepPhase (fuel + 1) idx 0x1000 = (idx + 1, 0) := by
  unfold stepPhase
  rw [if_pos le_rfl]
  split_ifs
  · rfl
  · unfold stepPhase
    cases fuel <;> rfl

theorem run_stalled {e : Envelope} (hphase : e.phase = .release) (hlevel : e.level = 14336)
    (hdivider : e.divider < blockSamples) :
    e.run (adsrOf 0 0x1E) = { e with divider := e.divider + 1 } := by
  have hdelta : (adsrOf 0 0x1E).delta e.level e.phase = (-8, 1) := by
    rw [hphase, hlevel]
    decide
  have hsafe : e.Safe := ⟨by rw [hlevel]; decide, hdivider.trans (by decide)⟩
  unfold Envelope.run
  rw [enterDecay_of_ne (by rw [hphase]; decide)]
  obtain ⟨-, heq⟩ | ⟨hfull, -⟩ := runIn_cases (adsrOf_ranged 0 0x1E) hsafe
  · rw [heq, hdelta]
  · rw [hdelta] at hfull
    unfold blockSamples at hdivider
    omega

theorem Stalled.refill {s : State} (h : Stalled s) :
    let v := (s.voices 0).refill s.ram
    v.flags = 1 ∧ v.phase = 0 ∧ v.sampleIdx < blockSamples ∧ v.env.phase = .release ∧
      v.env.level = 14336 ∧ v.env.divider ≤ v.sampleIdx := by
  intro v
  have henv := refill_env (s.voices 0) s.ram
  have hends : (s.voices 0).programEnds = true := by
    unfold Voice.programEnds
    rw [h.flags]
    rfl
  by_cases hlast : blockSamples ≤ (s.voices 0).sampleIdx
  · rw [if_pos ⟨hlast, hends⟩] at henv
    have hv : v = (s.voices 0).followFlags.decodeBlock s.ram := if_pos hlast
    have hphase : (s.voices 0).followFlags.phase = (s.voices 0).phase := by
      unfold Voice.followFlags
      split_ifs <;> rfl
    have hflags : v.flags = 1 := by
      rw [hv, h.ram]
      rfl
    have hidx : v.sampleIdx = 0 := by
      rw [hv]
      rfl
    have hfrac : v.phase = 0 := by
      rw [hv]
      exact hphase.trans h.phase
    rw [henv, hidx]
    exact ⟨hflags, hfrac, by decide, rfl, h.level, le_rfl⟩
  · have hv : v = s.voices 0 := if_neg hlast
    rw [hv]
    exact ⟨h.flags, h.phase, Nat.lt_of_not_le hlast, h.release, h.level, h.divider⟩

theorem Stalled.frame {s : State} (h : Stalled s) : Stalled (s.step .frame) := by
  have hplays : samples 0 .frame s = true := by
    show (s.enabled && (s.voices 0).active) = true
    rw [h.enabled, h.active]
    rfl
  obtain ⟨hflags, hfrac, hidx, hrelease, hlevel, hdivider⟩ := h.refill
  have hplay := frame_voice hplays
  obtain ⟨hregs, hram, henabled⟩ := frame_regs h.enabled
  have henv := play_env (s.voices 0) s.ram (s.voiceReg 0)
  rw [h.adsrLo, h.adsrHi, run_stalled hrelease hlevel (hdivider.trans_lt hidx)] at henv
  have hact := play_active (s.voices 0) s.ram (s.voiceReg 0)
  rw [if_neg (by rw [henv, hlevel]; exact fun h => absurd h.2 (by decide)), h.active] at hact
  have hpos := play_position (s.voices 0) s.ram (s.voiceReg 0)
  have hpitch : (((s.voices 0).refill s.ram).phase + pitchOf (s.voiceReg 0 2)) % 2 ^ 32 = 0x1000 := by
    rw [hfrac, h.pitch]
    rfl
  rw [hpitch, show blockSamples = 27 + 1 from rfl, stepPhase_one, Prod.mk.injEq] at hpos
  exact {
    ram := hram.trans h.ram
    enabled := henabled
    pitch := (congrFun hregs _).trans h.pitch
    adsrLo := (congrFun hregs _).trans h.adsrLo
    adsrHi := (congrFun hregs _).trans h.adsrHi
    active := by rw [hplay, hact]
    flags := by rw [hplay, play_flags, hflags]
    phase := by rw [hplay, hpos.2]
    sampleIdx := by rw [hplay, hpos.1]; exact hidx
    release := by rw [hplay, henv]; exact hrelease
    level := by rw [hplay, henv]; exact hlevel
    divider := by rw [hplay, henv, hpos.1]; exact Nat.succ_le_succ hdivider }

theorem stalled_keyedOff :
    Stalled (Ranked.run State.step keyedOff { State.init with ram := endsOnly }) := by
  constructor
  · rfl
  all_goals decide +kernel

theorem Stalled.frames (n : Nat) : ∀ {s : State}, Stalled s →
    Stalled (Ranked.run State.step (List.replicate n .frame) s) := by
  induction n with
  | zero => exact fun h => h
  | succ n ih => exact fun h => ih h.frame

/-- The level stays where it was when the voice was keyed off, though the rate is below 31. -/
theorem ended_program_keeps_sounding :
    let s := Ranked.run State.step keyedOff { State.init with ram := endsOnly }
    (s.voices 0).env.phase = .release ∧ (s.adsr 0).rr = 30 ∧
      ∀ n, ((Ranked.run State.step (List.replicate n .frame) s).voices 0).active = true := by
  intro s
  refine ⟨stalled_keyedOff.release, ?_, fun n => (stalled_keyedOff.frames n).active⟩
  decide

end PsxRecomp.Spu
