import PsxRecomp.Lib.Countdown
import PsxRecomp.Runtime.SioRoundTrip

/-!
# `Runtime/SioEvents.lean` — the serial port between transactions and between events

Two things a state of the port keeps whatever reaches it from `sio_init` on: between transactions no
card is in the middle of anything, and between events the port is a `Countdown.Machine`. A shift and an
acknowledge count down, and `sio_advance` fires what falls strictly inside its cycles.
-/

set_option autoImplicit false

namespace PsxRecomp.Sio

open BitVec

variable {P : Type} (pad : Pad P)

/-! ## 1. Between transactions -/

/-- What reaches the port: an access or the clock, a byte put on the bus, or one turn of the loop of
`sio_advance`, so that the states between two events of one call count too. -/
inductive Act
  | port (op : Op)
  | exchange (tx : Byte)
  | turn (dt : Int) (e : Next)

def act (s : State P) : Act → State P
  | .port op => step pad s op
  | .exchange tx => s.process pad tx
  | .turn dt .shift => sioHandleShiftComplete pad (elapse dt s)
  | .turn dt .ack => sioFireAckIrq (takeAck (elapse dt s))
  | .turn dt .nothing => elapse dt s

def acts (s : State P) (l : List Act) : State P := l.foldl (act pad) s

section
variable {pad} {J : State P → Prop} {s : State P}

theorem WireInvariant.act (h : WireInvariant pad s.ctrl J) (hs : J s) (a : Act) :
    J (act pad s a) := by
  cases a with
  | port op => exact h.step hs op
  | exchange tx => exact h.process tx rfl hs
  | turn dt e =>
    have helapse : J (elapse dt s) := h.of_eq hs rfl rfl
    cases e with
    | shift =>
      have hc : (elapse dt s).ctrl = s.ctrl := rfl
      exact h.same (h.process _ hc helapse) (shiftComplete_same pad _).1
    | ack =>
      have htake : J (takeAck (elapse dt s)) := h.of_eq hs rfl rfl
      exact h.same htake (sameLine_fireAck _).toSameWire
    | nothing => exact helapse

theorem WireInvariant.acts (h : ∀ c, WireInvariant pad c J) (hs : J s) (l : List Act) :
    J (acts pad s l) := by
  induction l generalizing s with
  | nil => exact hs
  | cons a l ih => exact ih ((h s.ctrl).act hs a)

end

/-- In every state on the way from `sio_init`: while nobody owns the bus the working variables, both
saved copies and so whatever a byte loads are idle, so that the branches of `sio_process_byte` that
resume or abort a suspended protocol are never taken; and a card that moves a data byte moves it inside
the buffer, before the byte and after it. -/
theorem no_stale_card_protocol (cards : Slot → Card) (p : P) (l : List Act) :
    let b := (acts pad (init cards p) l).bus
    (b.device = .none → b.mc.state = .idle ∧
      ∀ slot, (b.mcSlots slot).state = .idle ∧ (b.mcLoadSlot slot).mc.state = .idle) ∧
    (b.mc.state = .readData ∨ b.mc.state = .writeData →
      b.mc.dataIdx < 128 ∧ ∀ tx, (mcProcessByte tx b).1.mc.dataIdx ≤ 128) := by
  intro b
  have hinit : Kept cards 0 (init cards p) := ⟨le_rfl, tied_of_idle (fun _ => rfl) rfl, .inl rfl⟩
  have htied := (WireInvariant.acts (kept_invariant pad cards 0) hinit l).tied
  refine ⟨fun hnone => ⟨htied.free (by simp [hnone, b]), fun slot => ?_⟩, fun hmoves => ?_⟩
  · exact ⟨htied.slots slot, htied.slots slot⟩
  · have hlt := htied.indexed hmoves
    refine ⟨hlt, fun tx => ?_⟩
    rcases hmoves with hst | hst
    · simp only [mcProcessByte, hst]
      exact hlt
    · simp only [mcProcessByte, hst]
      exact hlt

/-! ## 2. The port as a countdown -/

/-- What is due next, and in how many cycles. At a tie the shift comes first. -/
def nextDue (s : State P) : Option (Int × Next) :=
  if s.shifter.active = true ∧
      (s.ack.pending = true → max 0 s.shifter.remaining ≤ max 0 s.ack.remaining) then
    some (max 0 s.shifter.remaining, .shift)
  else if s.ack.pending = true then some (max 0 s.ack.remaining, .ack)
  else none

def fire (e : Next) (s : State P) : State P :=
  match e with
  | .shift => sioHandleShiftComplete pad s
  | .ack => sioFireAckIrq (takeAck s)
  | .nothing => s

/-- A byte in the shifter or behind it may still end and be acknowledged. -/
def eventsLeft (s : State P) : Nat :=
  2 * s.shifter.active.toNat + 2 * s.shifter.buffered.toNat + s.ack.pending.toNat

def machine : Countdown.Machine (State P) Next where
  next := nextDue
  elapse := elapse
  fire := fire pad
  rank := eventsLeft

section
variable {s : State P} {d : Int} {e : Next}

theorem nextDue_cases (h : nextDue s = some (d, e)) :
    (e = .shift ∧ s.shifter.active = true ∧ d = max 0 s.shifter.remaining ∧
      (s.ack.pending = true → d ≤ max 0 s.ack.remaining)) ∨
    (e = .ack ∧ s.ack.pending = true ∧ d = max 0 s.ack.remaining ∧
      (s.shifter.active = true → d < max 0 s.shifter.remaining)) := by
  unfold nextDue at h
  split_ifs at h with hshift hack
  · obtain ⟨rfl, rfl⟩ := Prod.mk.inj (Option.some.inj h)
    exact .inl ⟨rfl, hshift.1, rfl, hshift.2⟩
  · obtain ⟨rfl, rfl⟩ := Prod.mk.inj (Option.some.inj h)
    refine .inr ⟨rfl, hack, rfl, fun hactive => ?_⟩
    by_contra hle
    exact hshift ⟨hactive, fun _ => not_lt.mp hle⟩

theorem nextDue_nonneg (h : nextDue s = some (d, e)) : 0 ≤ d := by
  rcases nextDue_cases h with ⟨-, -, hd, -⟩ | ⟨-, -, hd, -⟩ <;> omega

theorem nextDue_eq_none_iff :
    nextDue s = none ↔ s.shifter.active = false ∧ s.ack.pending = false := by
  unfold nextDue
  cases s.shifter.active <;> cases s.ack.pending <;> simp
  split_ifs <;> simp

theorem elapse_idle {dt : Int} (h : s.shifter.active = false) (h' : s.ack.pending = false) :
    elapse dt s = s := by
  have hshift : ¬s.shifter.active = true := by simp [h]
  have hack : ¬s.ack.pending = true := by simp [h']
  simp [elapse, if_neg hshift, if_neg hack]

theorem elapse_elapse (a b : Int) (s : State P) : elapse b (elapse a s) = elapse (a + b) s := by
  unfold elapse
  cases s.shifter.active <;> cases s.ack.pending <;> simp <;> omega

theorem nextDue_elapse {a : Int} (h0 : 0 ≤ a) (ha : a ≤ d) (h : nextDue s = some (d, e)) :
    nextDue (elapse a s) = some (d - a, e) := by
  rcases nextDue_cases h with ⟨rfl, hactive, hd, hfirst⟩ | ⟨rfl, hpending, hd, hfirst⟩
  · have hstill : (elapse a s).ack.pending = true →
        max 0 (elapse a s).shifter.remaining ≤ max 0 (elapse a s).ack.remaining := by
      intro hpending
      have hle := hfirst hpending
      have hp : s.ack.pending = true := hpending
      simp only [elapse, hactive, hp, if_true]
      omega
    rw [nextDue, if_pos ⟨hactive, hstill⟩]
    simp only [elapse, hactive, if_true]
    congr 2
    omega
  · have hnot : ¬((elapse a s).shifter.active = true ∧ ((elapse a s).ack.pending = true →
        max 0 (elapse a s).shifter.remaining ≤ max 0 (elapse a s).ack.remaining)) := by
      rintro ⟨hactive, hle⟩
      have hlt := hfirst hactive
      have hact : s.shifter.active = true := hactive
      have hle := hle hpending
      simp only [elapse, hact, hpending, if_true] at hle
      omega
    have hp : (elapse a s).ack.pending = true := hpending
    rw [nextDue, if_neg hnot, if_pos hp]
    simp only [elapse, hpending, if_true]
    congr 2
    omega

theorem machine_laws : Countdown.Laws (machine pad) where
  next_nonneg := nextDue_nonneg
  elapse_zero s := by simp [machine, elapse]
  elapse_add := elapse_elapse
  elapse_none _ h := elapse_idle (nextDue_eq_none_iff.mp h).1 (nextDue_eq_none_iff.mp h).2
  next_elapse := nextDue_elapse
  rank_elapse _ _ := rfl
  rank_fire {s d e} h := by
    rcases nextDue_cases h with ⟨rfl, hactive, -⟩ | ⟨rfl, hpending, -⟩
    · obtain ⟨-, hact, hbuf⟩ := shiftComplete_same pad (elapse d s)
      have hack := (sioHandleShiftComplete pad (elapse d s)).ack.pending.toNat_le
      have hsame : (elapse d s).shifter.buffered = s.shifter.buffered := rfl
      simp only [machine, fire, eventsLeft, hact, hbuf, hsame, hactive, Bool.toNat_false,
        Bool.toNat_true]
      omega
    · obtain ⟨hsh, hack, -⟩ := fireAck_shifter (takeAck (elapse d s))
      have hdone : (takeAck (elapse d s)).ack.pending = false := rfl
      have hact : (takeAck (elapse d s)).shifter.active = s.shifter.active := rfl
      have hbuf : (takeAck (elapse d s)).shifter.buffered = s.shifter.buffered := rfl
      simp only [machine, fire, eventsLeft, hsh, hack, hdone, hact, hbuf, hpending, Bool.toNat_false,
        Bool.toNat_true]
      omega

theorem nextEvent_eq {r : Int} (hr : 0 < r) (s : State P) :
    nextEvent s r = match nextDue s with
      | some (d, e) => if d < r then (d, e) else (r, .nothing)
      | none => (r, .nothing) := by
  unfold nextEvent nextDue
  cases s.shifter.active <;> cases s.ack.pending <;>
    simp only [Bool.false_eq_true, false_and, true_and, if_false, if_true, forall_const,
      IsEmpty.forall_iff]
  · split_ifs <;> simp <;> omega
  · split_ifs <;> simp <;> omega
  · by_cases hle : max 0 s.shifter.remaining ≤ max 0 s.ack.remaining
    · simp only [hle, if_true]
      split_ifs <;> simp <;> omega
    · simp only [hle, if_false]
      split_ifs <;> simp <;> omega

theorem pace_eq (k : Nat) (r : Int) (s : State P) : pace pad k r s = (machine pad).pace k r s := by
  induction k generalizing r s with
  | zero => rfl
  | succ k ih =>
    rw [pace, Countdown.Machine.pace]
    split
    · rfl
    rename_i hr
    rw [nextEvent_eq (not_le.mp hr)]
    simp only [machine]
    rcases hn : nextDue s with _ | ⟨d, e⟩
    · rfl
    by_cases hd : d < r
    · simp only [if_pos hd]
      rcases nextDue_cases hn with ⟨rfl, -⟩ | ⟨rfl, -⟩
      · exact ih ..
      · exact ih ..
    · simp [if_neg hd]

/-! ## 3. Reachable countdowns -/

def Outstanding (s : State P) : Prop := s.shifter.active = true ∨ s.ack.pending = true

/-- The clock calls as long as something is outstanding, and no countdown is longer than the longest
one that is set: the paced acknowledge of a pad byte. -/
structure Clocked (s : State P) : Prop where
  timing : Outstanding s → s.timingActive = true
  shift : s.shifter.remaining ≤ 1258
  ack : s.ack.remaining ≤ 1258

section
variable {s t : State P}

theorem Clocked.of_eq (h : Clocked s) (hshifter : t.shifter = s.shifter) (hack : t.ack = s.ack)
    (htiming : t.timingActive = s.timingActive) : Clocked t := by
  refine ⟨fun hout => ?_, by rw [hshifter]; exact h.shift, by rw [hack]; exact h.ack⟩
  unfold Outstanding at hout
  rw [hshifter, hack] at hout
  exact htiming.trans (h.timing hout)

theorem clocked_kill (s : State P) : Clocked (killShifter s) := by
  refine ⟨fun hout => ?_, ?_, ?_⟩
  · rcases hout with h | h <;> cases h
  · change (0 : Int) ≤ 1258
    decide
  · change (0 : Int) ≤ 1258
    decide

theorem Clocked.settle (h : Clocked s) : Clocked s.settle := by
  unfold State.settle
  split
  case isTrue hquiet =>
    refine ⟨fun hout => ?_, h.shift, h.ack⟩
    rcases hout with hact | hpend
    · simp_all
    · simp_all
  case isFalse => exact h

theorem Clocked.fireAck (h : Clocked s) : Clocked (sioFireAckIrq s) := by
  unfold sioFireAckIrq
  extract_lets en a s₁
  have h₁ : Clocked s₁ := ⟨h.timing, h.shift, h.ack⟩
  split
  · exact Clocked.settle ⟨h₁.timing, h₁.shift, h₁.ack⟩
  · exact h₁

theorem Clocked.shiftComplete (h : Clocked s) (ht : s.timingActive = true) :
    Clocked (sioHandleShiftComplete pad s) := by
  have hp : Clocked (s.process pad s.shifter.byte) := h.of_eq rfl rfl rfl
  have hpt : (s.process pad s.shifter.byte).timingActive = true := ht
  unfold sioHandleShiftComplete
  generalize s.process pad s.shifter.byte = s₁ at hp hpt ⊢
  extract_lets t₁ acked sh t₂ t₃
  have h₃ : Clocked t₃ ∧ t₃.timingActive = true := by
    unfold t₃
    split
    · exact ⟨⟨fun _ => hpt, hp.shift, by simp [ackCycles]⟩, hpt⟩
    · exact ⟨⟨fun _ => hpt, hp.shift, hp.ack⟩, hpt⟩
  apply Clocked.settle
  unfold promote
  split
  · exact ⟨fun _ => h₃.2, by simp [baudCycles], h₃.1.ack⟩
  · exact ⟨fun _ => h₃.2, h₃.1.shift, h₃.1.ack⟩

theorem Clocked.elapse (h : Clocked s) {dt : Int} (hdt : 0 ≤ dt) : Clocked (elapse dt s) := by
  refine ⟨h.timing, ?_, ?_⟩
  · have hs := h.shift
    simp only [Sio.elapse]
    split <;> omega
  · have ha := h.ack
    simp only [Sio.elapse]
    split <;> omega

theorem Clocked.pace (h : Clocked s) (k : Nat) (r : Int) : Clocked (pace pad k r s) := by
  rw [pace_eq]
  induction k generalizing r s with
  | zero => exact h
  | succ k ih =>
    by_cases hr : r ≤ 0
    · rw [Countdown.pace_of_nonpos hr]
      exact h
    have hpos := not_le.mp hr
    rcases hn : (machine pad).next s with _ | ⟨d, e⟩
    · rw [Countdown.pace_none (machine_laws pad) hn]
      exact h
    by_cases hd : d < r
    · rw [Countdown.pace_fire hn hd hpos]
      have hel : Clocked (Sio.elapse d s) := h.elapse (nextDue_nonneg hn)
      apply ih
      rcases nextDue_cases hn with ⟨rfl, hactive, -⟩ | ⟨rfl, -, -⟩
      · exact hel.shiftComplete pad (h.timing (.inl hactive))
      · refine Clocked.fireAck ⟨fun hout => ?_, hel.shift, hel.ack⟩
        rcases hout with hactive | hpending
        · exact h.timing (.inl hactive)
        · cases hpending
    · rw [Countdown.pace_wait hn (not_lt.mp hd) hpos]
      exact h.elapse hpos.le

theorem Clocked.writeTx (h : Clocked s) (tx : Byte) : Clocked (writeTx pad tx s) := by
  unfold Sio.writeTx
  split_ifs
  · exact h
  · unfold padTx
    extract_lets s₁ s₂ s₃
    have h₃ : Clocked s₃ := (clocked_kill s).of_eq rfl rfl rfl
    split
    · exact ⟨fun _ => rfl, h₃.shift, by simp [baudCycles, ackCycles]⟩
    · exact h₃.of_eq rfl rfl rfl
  · unfold shiftTx
    extract_lets owner s₁
    have h₁ : Clocked s₁ := h.of_eq rfl rfl rfl
    split_ifs with hactive
    · exact ⟨fun _ => rfl, by simp [baudCycles], h₁.ack⟩
    · exact ⟨h₁.timing, h₁.shift, h₁.ack⟩
    · exact h₁

theorem Clocked.txOff (h : Clocked s) (value : BitVec 16) : Clocked (txOff value s) := by
  unfold Sio.txOff
  extract_lets k t
  have ht : Clocked t := (clocked_kill s).of_eq rfl rfl rfl
  split_ifs
  · exact ht
  · exact ht.of_eq rfl rfl rfl
  · exact h

theorem Clocked.writeCtrl (h : Clocked s) (value : BitVec 16) : Clocked (writeCtrl pad value s) := by
  unfold Sio.writeCtrl
  extract_lets old s₁ s₂ s₃ s₄ s₅
  have h₂ : Clocked s₂ := by
    unfold s₂
    split <;> exact h.of_eq rfl rfl rfl
  have h₃ : Clocked s₃ := by
    unfold s₃
    split
    · exact (clocked_kill s₂).of_eq rfl rfl rfl
    · exact h₂
  have h₄ : Clocked s₄ := by
    unfold s₄
    split
    · exact h₃.of_eq rfl rfl rfl
    · exact h₃
  have h₅ : Clocked s₅ := by
    unfold s₅
    split
    · exact h₄.txOff value
    · exact h₄
  split
  · exact (clocked_kill s₅).of_eq rfl rfl rfl
  · exact h₅

theorem Clocked.step (h : Clocked s) (op : Op) : Clocked (step pad s op) := by
  cases op with
  | write addr value =>
    simp only [Sio.step, sioWrite]
    split_ifs
    · exact h.writeTx pad _
    · exact h.of_eq rfl rfl rfl
    · exact h.writeCtrl pad _
    · exact h.of_eq rfl rfl rfl
    · exact h
  | read addr =>
    simp only [Sio.step, sioRead, readStat]
    split_ifs <;> exact h.of_eq rfl rfl rfl
  | advance cycles =>
    simp only [Sio.step, sioAdvance]
    split_ifs
    · exact h
    · exact h.pace pad _ _
    · exact h
  | tick cycles => exact h.pace pad _ _

theorem Clocked.run (h : Clocked s) (ops : List Op) : Clocked (run pad s ops) := by
  induction ops generalizing s with
  | nil => exact h
  | cons op ops ih => exact ih (h.step pad op)

theorem clocked_init (cards : Slot → Card) (p : P) : Clocked (init cards p) := by
  refine ⟨fun hout => ?_, ?_, ?_⟩
  · rcases hout with h | h <;> cases h
  · simp [init]
  · simp [init]

end

/-! ## 4. The reported distance -/

/-- `sio_cycles_to_irq`; nothing sets `sio_irq_pending` in this build. -/
def sioCyclesToIrq (iMask : Word) (s : State P) : Int :=
  if iMask.getLsbD 7 = false then 0xFFFFFFFF
  else if s.timingActive then
    let best : Int := 0xFFFFFFFF
    let best := if s.ack.pending = true ∧ 0 < s.ack.remaining ∧ s.ack.remaining < best
      then s.ack.remaining else best
    if s.shifter.active = true ∧ 0 < s.shifter.remaining ∧ s.shifter.remaining < best
      then s.shifter.remaining else best
  else 0xFFFFFFFF

/-- A call with `n` cycles processes an event. -/
def Processes (s : State P) (n : Word) : Prop :=
  s.timingActive = true ∧ 0 < n.toInt ∧ (nextEvent s n.toInt).2 ≠ .nothing

/-- What is outstanding is reported, at a distance no larger than the cycles of any call that processes
the next event. -/
def Foreseen (s : State P) : Prop :=
  Outstanding s → sioCyclesToIrq 0xFFFFFFFF#32 s < 0xFFFFFFFF ∧
    ∀ n, Processes s n → sioCyclesToIrq 0xFFFFFFFF#32 s ≤ n.toInt

/-- An outstanding countdown has run out and waits for the next call. -/
def Exhausted (s : State P) : Prop :=
  s.shifter.active = true ∧ s.shifter.remaining ≤ 0 ∨ s.ack.pending = true ∧ s.ack.remaining ≤ 0

def LastCycle (s : State P) : Prop :=
  s.shifter.active = true ∧ s.shifter.remaining = 1 ∨ s.ack.pending = true ∧ s.ack.remaining = 1

section
variable {s : State P}

theorem sioCyclesToIrq_spec (h : Clocked s) (hout : Outstanding s) :
    (s.shifter.active = true → 0 < s.shifter.remaining →
      sioCyclesToIrq 0xFFFFFFFF#32 s ≤ s.shifter.remaining) ∧
    (s.ack.pending = true → 0 < s.ack.remaining →
      sioCyclesToIrq 0xFFFFFFFF#32 s ≤ s.ack.remaining) ∧
    (sioCyclesToIrq 0xFFFFFFFF#32 s = 0xFFFFFFFF ∨
      (s.shifter.active = true ∧ 0 < s.shifter.remaining ∧
        sioCyclesToIrq 0xFFFFFFFF#32 s = s.shifter.remaining) ∨
      (s.ack.pending = true ∧ 0 < s.ack.remaining ∧
        sioCyclesToIrq 0xFFFFFFFF#32 s = s.ack.remaining)) := by
  have hmask : ¬(0xFFFFFFFF#32).getLsbD 7 = false := by decide
  unfold sioCyclesToIrq
  rw [if_neg hmask, if_pos (h.timing hout)]
  dsimp only
  refine ⟨fun hact hpos => ?_, fun hpend hpos => ?_, ?_⟩
  · split_ifs <;> simp_all
  · split_ifs <;> simp_all <;> omega
  · split_ifs with h₁ h₂ h₂
    · exact .inr (.inl ⟨h₂.1, h₂.2.1, rfl⟩)
    · exact .inr (.inr ⟨h₁.1, h₁.2.1, rfl⟩)
    · exact .inr (.inl ⟨h₂.1, h₂.2.1, rfl⟩)
    · exact .inl rfl

theorem processes_iff (h : Clocked s) {d : Int} {e : Next} (hn : nextDue s = some (d, e)) (n : Word) :
    Processes s n ↔ d < n.toInt := by
  have hd : 0 ≤ d := nextDue_nonneg hn
  have hevent : e ≠ .nothing := by
    rcases nextDue_cases hn with ⟨rfl, -⟩ | ⟨rfl, -⟩ <;> simp
  have hout : Outstanding s := by
    rcases nextDue_cases hn with ⟨-, hact, -⟩ | ⟨-, hpend, -⟩
    · exact .inl hact
    · exact .inr hpend
  constructor
  · rintro ⟨-, hpos, hne⟩
    rw [nextEvent_eq hpos, hn] at hne
    by_contra hlt
    simp [hlt] at hne
  · intro hlt
    have hpos : 0 < n.toInt := by omega
    refine ⟨h.timing hout, hpos, ?_⟩
    rw [nextEvent_eq hpos, hn]
    simp only [if_pos hlt]
    exact hevent

theorem Outstanding.next (h : Outstanding s) : ∃ d e, nextDue s = some (d, e) := by
  cases hn : nextDue s with
  | none =>
    obtain ⟨hact, hpend⟩ := nextDue_eq_none_iff.mp hn
    rcases h with h | h
    · simp [hact] at h
    · simp [hpend] at h
  | some x => exact ⟨x.1, x.2, rfl⟩

theorem foreseen_iff (h : Clocked s) : Foreseen s ↔ (Exhausted s → LastCycle s) := by
  constructor
  · intro hseen hex
    have hout : Outstanding s := by
      rcases hex with ⟨hact, -⟩ | ⟨hpend, -⟩
      · exact .inl hact
      · exact .inr hpend
    obtain ⟨d, e, hn⟩ := hout.next
    have hd : d < (1#32).toInt := by
      have hone : (1#32).toInt = 1 := by decide
      rcases nextDue_cases hn with ⟨-, hact, hd, hfirst⟩ | ⟨-, hpend, hd, hfirst⟩
      · rcases hex with ⟨-, hzero⟩ | ⟨hpend, hzero⟩
        · omega
        · have hle := hfirst hpend
          omega
      · rcases hex with ⟨hact, hzero⟩ | ⟨-, hzero⟩
        · have hlt := hfirst hact
          omega
        · omega
    obtain ⟨hfinite, hbound⟩ := hseen hout
    have hle := hbound 1#32 ((processes_iff h hn _).mpr hd)
    have hone : (1#32).toInt = 1 := by decide
    rcases (sioCyclesToIrq_spec h hout).2.2 with heq | ⟨hact, hpos, heq⟩ | ⟨hpend, hpos, heq⟩
    · omega
    · exact .inl ⟨hact, by omega⟩
    · exact .inr ⟨hpend, by omega⟩
  · intro hfresh hout
    obtain ⟨hs, ha, -⟩ := sioCyclesToIrq_spec h hout
    obtain ⟨d, e, hn⟩ := hout.next
    have hshift := h.shift
    have hack := h.ack
    have hd : 0 ≤ d ∧ d ≤ 1258 := by
      rcases nextDue_cases hn with ⟨-, -, hd, -⟩ | ⟨-, -, hd, -⟩ <;> omega
    have hdist : sioCyclesToIrq 0xFFFFFFFF#32 s ≤ d + 1 := by
      by_cases hex : Exhausted s
      · rcases hfresh hex with ⟨hact, hone⟩ | ⟨hpend, hone⟩
        · have hle := hs hact (by omega)
          omega
        · have hle := ha hpend (by omega)
          omega
      · rcases nextDue_cases hn with ⟨-, hact, hd, -⟩ | ⟨-, hpend, hd, -⟩
        · have hpos : 0 < s.shifter.remaining := by
            by_contra hle
            exact hex (.inl ⟨hact, not_lt.mp hle⟩)
          have hle := hs hact hpos
          omega
        · have hpos : 0 < s.ack.remaining := by
            by_contra hle
            exact hex (.inr ⟨hpend, not_lt.mp hle⟩)
          have hle := ha hpend hpos
          omega
    refine ⟨by omega, fun n hp => ?_⟩
    have hlt := (processes_iff h hn n).mp hp
    omega

/-! ## 5. Cutting an advance -/

theorem nextDue_of_not_outstanding (h : ¬Outstanding s) : nextDue s = none := by
  obtain ⟨hact, hpend⟩ := not_or.mp h
  exact nextDue_eq_none_iff.mpr ⟨by simpa using hact, by simpa using hpend⟩

theorem sioAdvance_idle (h : ¬Outstanding s) (n : Word) : sioAdvance pad n s = s := by
  rw [sioAdvance, pace_eq, Countdown.pace_none (machine_laws pad) (nextDue_of_not_outstanding h)]
  simp [ite_self]

theorem sioAdvance_eq (h : Clocked s) {n : Word} (hn : 0 < n.toInt) :
    sioAdvance pad n s = (machine pad).pace maxTransitions n.toInt s := by
  have hne : n ≠ 0#32 := by
    rintro rfl
    simp at hn
  by_cases hout : Outstanding s
  · rw [sioAdvance, if_neg hne, if_pos (h.timing hout), pace_eq]
  · rw [sioAdvance_idle pad hout,
      Countdown.pace_none (machine_laws pad) (nextDue_of_not_outstanding hout)]

theorem sioAdvance_of_nonpos {n : Word} (hn : n.toInt ≤ 0) (s : State P) :
    sioAdvance pad n s = s := by
  rw [sioAdvance, pace_eq, Countdown.pace_of_nonpos hn]
  simp [ite_self]

theorem eventsLeft_lt (s : State P) : eventsLeft s < maxTransitions := by
  have h₁ := s.shifter.active.toNat_le
  have h₂ := s.shifter.buffered.toNat_le
  have h₃ := s.ack.pending.toNat_le
  unfold eventsLeft maxTransitions
  omega

theorem sioAdvance_sioAdvance (h : Clocked s) {a b : Word} (ha : 0 < a.toInt) (hb : 0 < b.toInt) :
    sioAdvance pad b (sioAdvance pad a s) =
      (machine pad).pace maxTransitions (a.toInt + b.toInt) s := by
  have hmid : Clocked (sioAdvance pad a s) := h.step pad (.advance a)
  rw [sioAdvance_eq pad hmid hb, sioAdvance_eq pad h ha]
  exact Countdown.pace_add (machine_laws pad) ha hb (eventsLeft_lt s)

theorem toInt_pos_iff {n : Word} : 0 < n.toInt ↔ 0 < n.toNat ∧ n.toNat < 2 ^ 31 := by
  rw [toInt_eq_toNat_cond]
  split_ifs <;> omega

theorem sioAdvance_ne (h : Clocked s) (hout : Outstanding s) {n : Word} (hn : 0 < n.toInt) :
    sioAdvance pad n s ≠ s := by
  rw [sioAdvance_eq pad h hn]
  obtain ⟨d, e, hd⟩ := hout.next
  exact Countdown.pace_ne (machine_laws pad) (k := 7) hd hn

/-- Two counts that are not zero, with a sum that is negative as `int`: the one advance does nothing, and
of the two one at least does something. -/
theorem sioAdvance_sioAdvance_ne (h : Clocked s) (hout : Outstanding s) {a b : Word} (ha : 0 < a.toNat)
    (hb : 0 < b.toNat) (hab : a.toNat + b.toNat < 2 ^ 32) : sioAdvance pad b (sioAdvance pad a s) ≠ s := by
  by_cases hapos : 0 < a.toInt
  · by_cases hbpos : 0 < b.toInt
    · rw [sioAdvance_sioAdvance pad h hapos hbpos]
      obtain ⟨d, e, hd⟩ := hout.next
      exact Countdown.pace_ne (machine_laws pad) (k := 7) hd (by omega)
    · rw [sioAdvance_of_nonpos pad (not_lt.mp hbpos)]
      exact sioAdvance_ne pad h hout hapos
  · rw [sioAdvance_of_nonpos pad (not_lt.mp hapos)]
    rw [toInt_pos_iff] at hapos
    exact sioAdvance_ne pad h hout (toInt_pos_iff.mpr (by omega))

theorem sioAdvance_add_iff (h : Clocked s) {a b : Word} (hab : a.toNat + b.toNat < 2 ^ 32) :
    sioAdvance pad b (sioAdvance pad a s) = sioAdvance pad (a + b) s ↔
      (Outstanding s → a = 0#32 ∨ b = 0#32 ∨ a.toNat + b.toNat < 2 ^ 31) := by
  have hzero : sioAdvance pad 0#32 = id := funext fun s => sioAdvance_of_nonpos pad le_rfl s
  by_cases ha0 : a = 0#32
  · simp [ha0, hzero]
  by_cases hb0 : b = 0#32
  · simp [hb0, hzero]
  have ha : 0 < a.toNat := Nat.pos_of_ne_zero fun h0 => ha0 (eq_of_toNat_eq h0)
  have hb : 0 < b.toNat := Nat.pos_of_ne_zero fun h0 => hb0 (eq_of_toNat_eq h0)
  have hadd : (a + b).toNat = a.toNat + b.toNat := toNat_add_of_lt hab
  by_cases hout : Outstanding s
  · simp only [hout, ha0, hb0, false_or, true_implies]
    constructor
    · intro heq
      by_contra hover
      have hneg : ¬ 0 < (a + b).toInt := fun hpos => hover (hadd ▸ (toInt_pos_iff.mp hpos).2)
      rw [sioAdvance_of_nonpos pad (not_lt.mp hneg)] at heq
      exact sioAdvance_sioAdvance_ne pad h hout ha hb hab heq
    · intro hlt
      have hint : (a + b).toInt = a.toInt + b.toInt := by
        simp only [toInt_eq_toNat_cond, hadd]
        split_ifs <;> omega
      have hapos : 0 < a.toInt := toInt_pos_iff.mpr ⟨ha, by omega⟩
      have hbpos : 0 < b.toInt := toInt_pos_iff.mpr ⟨hb, by omega⟩
      rw [sioAdvance_sioAdvance pad h hapos hbpos, sioAdvance_eq pad h (by omega), hint]
  · simp [sioAdvance_idle pad hout, hout]

end

/-- In every state the port reaches from `sio_init`, and for all counts whose sum does not wrap around:
the distance is right and the two advances are one **exactly if** no outstanding countdown stands at
zero (but for one that is followed by another within a cycle) and, with anything outstanding and neither
count zero, the sum is a positive `int`. A countdown that a call brings to exactly zero is left for the
next call, and `sio_cycles_to_irq` looks at positive countdowns only. -/
theorem sio_distance_iff (cards : Slot → Card) (p : P) (ops : List Op) {a b : Word}
    (hab : a.toNat + b.toNat < 2 ^ 32) :
    let s := run pad (init cards p) ops
    (Foreseen s ∧ sioAdvance pad b (sioAdvance pad a s) = sioAdvance pad (a + b) s) ↔
      (Exhausted s → LastCycle s) ∧
        (Outstanding s → a = 0#32 ∨ b = 0#32 ∨ a.toNat + b.toNat < 2 ^ 31) := by
  intro s
  have h : Clocked s := (clocked_init cards p).run pad ops
  exact and_congr (foreseen_iff h) (sioAdvance_add_iff pad h hab)

def silentPad : Pad Unit := ⟨fun _ _ p => (p, stray), id⟩

def noCards : Slot → Card := fun _ => ⟨false, fun _ => Vector.replicate 128 0#8⟩

/-- The host selects a slot and sends a card's address byte. -/
def sendSelect : List Op := [.write 0x1F80104A#32 0x0003#32, .write 0x1F801040#32 0x81#32]

/-- Right after the byte is in the shifter, 1088 cycles from its end. -/
theorem sio_distance_fresh :
    let s := run silentPad (init noCards ()) sendSelect
    Foreseen s ∧ sioAdvance silentPad 1000#32 (sioAdvance silentPad 1088#32 s) =
      sioAdvance silentPad (1088#32 + 1000#32) s := by
  intro s
  refine (sio_distance_iff silentPad noCards () sendSelect (by decide)).mpr ⟨?_, ?_⟩
  · intro hex
    rcases hex with ⟨-, hzero⟩ | ⟨hpend, -⟩
    · exact absurd hzero (by decide)
    · exact absurd hpend (by decide)
  · exact fun _ => .inr (.inr (by decide))

/-- The clock advances by exactly the reported 1088 cycles: the shift is still outstanding and any call
will process it, but no distance is reported any more. -/
theorem exhausted_shift_not_reported :
    let s := run silentPad (init noCards ()) (sendSelect ++ [.advance 1088#32])
    sioCyclesToIrq 0xFFFFFFFF#32 (run silentPad (init noCards ()) sendSelect) = 1088 ∧
      s.shifter.active = true ∧ sioCyclesToIrq 0xFFFFFFFF#32 s = 0xFFFFFFFF ∧
      Processes s 1#32 ∧ ¬Foreseen s := by
  intro s
  have hactive : s.shifter.active = true := by decide
  have hnone : sioCyclesToIrq 0xFFFFFFFF#32 s = 0xFFFFFFFF := by decide
  refine ⟨by decide, hactive, hnone, ⟨by decide, by decide, by decide⟩, fun hseen => ?_⟩
  have hfinite := (hseen (.inl hactive)).1
  omega

end

end PsxRecomp.Sio
