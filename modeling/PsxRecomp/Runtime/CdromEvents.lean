import PsxRecomp.Runtime.CdromSerial
import PsxRecomp.Runtime.CdromStream

/-!
# `Runtime/CdromEvents.lean` — how long nothing happens, and cutting that time into slices

The event scheduler asks `cdrom_cycles_to_irq` how far it may run before the CD controller has something
to say, and advances the controller in slices up to there. Three countdowns run in the meantime: the
presentation delay of a response, the delay of a second response while no response is unacknowledged,
and that of the next sector while the stream is not held.
-/

set_option autoImplicit false

namespace PsxRecomp.Cdrom

/-! ## 1. Countdowns that run -/

def Timed (s : State) : Prop :=
  (s.queued.pending = true → s.irqFlag ≠ 0#8) ∧ (s.pending.pending = true → Delay s.pending.delay)

variable {delay : Int}

section
variable {disc : Disc} {s s' : State} {a b cycles : Nat}

theorem countDown_lt (hdelay : Delay delay) (hcycles : cycles < 2 ^ 32)
    (hpos : 0 < countDown delay cycles) : Delay (countDown delay cycles) := by
  have hcount := countDown_cases ⟨hdelay.1.le, hdelay.2⟩ hcycles
  exact ⟨hpos, hcount.1⟩

theorem countDown_of_le (hdelay : 0 ≤ delay ∧ delay < 2147483648) (hle : cycles ≤ delay) :
    countDown delay cycles = delay - cycles := by
  obtain ⟨-, heq | ⟨-, hlt⟩⟩ := countDown_cases hdelay (show cycles < 2 ^ 32 by omega)
  · exact heq
  · omega

theorem countDown_due (hdelay : 0 ≤ delay ∧ delay < 2147483648) (hdue : delay = cycles) :
    countDown delay cycles = 0 := by
  rw [countDown_of_le hdelay hdue.ge, hdue, sub_self]

theorem Timed.move (h : Timed s) (hm : Move s s') : Timed s' := by
  cases hm with
  | same hs =>
    cases hs
    exact h
  | answer bytes _ htype _ => exact ⟨fun _ => htype, h.2⟩
  | schedule _ hdelay => exact ⟨h.1, fun _ => hdelay⟩
  | wait hcycles hpos => exact ⟨h.1, fun hpending => countDown_lt (h.2 hpending) hcycles hpos⟩
  | expire _ => exact ⟨h.1, nofun⟩
  | queue _ hflag => exact ⟨fun _ => hflag, h.2⟩
  | dequeue => exact ⟨nofun, h.2⟩
  | ack val hok =>
    refine ⟨fun hqueued => ?_, h.2⟩
    obtain hflag | hnone := hok
    · exact hflag
    · exact absurd (hnone.symm.trans hqueued) Bool.false_ne_true
  | ackDequeue _ => exact ⟨nofun, h.2⟩
  | setLoc _ _ _ | start _ _ | stop | clear _ | raise _ _ _ _ | age _ | count _ _ | rate _ _ => exact h

theorem Timed.sector (h : Timed s) (hm : Sector s s') : Timed s' := by
  cases hm with
  | silent d _ _ _ _ => exact h
  | data d bytes _ _ _ _ _ =>
    have hflag : irqDataReady ≠ 0#8 := by decide
    exact ⟨fun _ => hflag, h.2⟩

theorem Reachable.timed (h : Reachable disc s) : Timed s :=
  h.keeps (fun _ _ _ => ⟨nofun, nofun⟩) (fun _ _ => Timed.move) (fun _ _ => Timed.sector)

theorem Reachable.readDelay (h : Reachable disc s) (hreading : s.reading = true) : Delay s.readDelay := by
  obtain ⟨hnone, hsome, -⟩ := h.streaming
  cases hr : stream s.log with
  | none => exact absurd ((hnone hr).symm.trans hreading) Bool.false_ne_true
  | some r => exact (hsome r hr).2.1

theorem Reachable.advance (h : Reachable disc s) (hcycles : cycles < 2 ^ 32) :
    Reachable disc (cdromAdvance disc cycles s) := by
  refine h.next (a := .advance (BitVec.ofNat 32 cycles)) trivial ?_
  rw [step, BitVec.toNat_ofNat, Nat.mod_eq_of_lt hcycles]

/-! ## 2. The distance -/

theorem le_ite_min {p : Prop} [Decidable p] {best d : Nat} :
    cycles ≤ (if p then min best d else best) ↔ cycles ≤ best ∧ (p → cycles ≤ d) := by
  split_ifs with hp
  · simp [hp, forall_const]
  · simp [hp, IsEmpty.forall_iff, and_true]

theorem le_cyclesToIrq_iff (h : Reachable disc s) :
    cycles ≤ cdromCyclesToIrq s ↔
      cycles ≤ 0xFFFFFFFF ∧
        (s.irqFlag ≠ 0#8 → enabled s.irqFlag s.irqEnable = true → cycles ≤ s.presentDelay) ∧
        (s.pending.pending = true → cycles ≤ s.pending.delay) ∧
        (s.reading = true → cycles ≤ s.readDelay) := by
  have hdelay {d : Int} (hd : Delay d) : (0 < d → cycles ≤ d.toNat) ↔ cycles ≤ d := by
    have hpos := hd.1
    omega
  have hpresent : cycles ≤ s.presentDelay.toNat ↔ cycles ≤ s.presentDelay := by
    have hnonneg := h.sound.2.2.1
    omega
  unfold cdromCyclesToIrq
  rw [le_ite_min, le_ite_min, le_ite_min, and_assoc, and_assoc, and_imp, and_imp, and_imp, hpresent]
  refine and_congr_right fun _ => and_congr_right fun _ => and_congr ?_ ?_
  · exact forall_congr' fun hpending => hdelay (h.timed.2 hpending)
  · exact forall_congr' fun hreading => hdelay (h.readDelay hreading)

/-! ## 3. A slice in which nothing happens -/

def pendingTick (cycles : Nat) (s : State) : State :=
  if s.pending.pending = true ∧ s.irqFlag = 0#8 then
    { s with pending := { s.pending with delay := s.pending.delay - cycles } }
  else s

theorem pendingTick_of_pending (h : s.pending.pending = true ∧ s.irqFlag = 0#8) :
    pendingTick cycles s = { s with pending := { s.pending with delay := s.pending.delay - cycles } } :=
  if_pos h

theorem pendingTick_of_not (h : ¬ (s.pending.pending = true ∧ s.irqFlag = 0#8)) :
    pendingTick cycles s = s :=
  if_neg h

def shift (cycles : Nat) (s : State) : State :=
  { s with counted := s.counted + cycles, readDelay := s.readDelay - cycles }

def streamTick (cycles : Nat) (s : State) : State :=
  if s.reading = true ∧ streamHeld s = false then shift cycles s else s

def tick (cycles : Nat) (s : State) : State := streamTick cycles (pendingTick cycles (age cycles s))

theorem tryExecute_eq (h : s.queued.pending = true → s.irqFlag ≠ 0#8) :
    tryExecuteQueuedCommand disc s = s := by
  refine if_pos ?_
  by_cases hqueued : s.queued.pending = true
  · exact .inr (h hqueued)
  · exact .inl (Bool.eq_false_iff.mpr hqueued)

theorem present_eq (h : s.irqFlag ≠ 0#8 → enabled s.irqFlag s.irqEnable = true → 0 < s.presentDelay) :
    presentCdromIrq s = s := by
  unfold presentCdromIrq
  split_ifs with hdelay hraise
  · rfl
  · exact absurd (h hraise.1 hraise.2.1) hdelay
  · rfl

theorem streamed_eq (hdelay : Delay s.readDelay) (hle : cycles ≤ s.readDelay) :
    streamed cycles s = shift cycles s := by
  unfold streamed shift
  have hcount := countDown_of_le ⟨hdelay.1.le, hdelay.2⟩ hle
  split_ifs with hpos
  · rw [hcount]
  · obtain rfl : cycles = 0 := by omega
    simp

theorem processPending_eq_tick (hdelay : s.pending.pending = true → Delay s.pending.delay)
    (hlt : s.pending.pending = true → s.irqFlag = 0#8 → cycles < s.pending.delay) :
    processPending disc cycles s = pendingTick cycles s := by
  unfold processPending pendingTick
  split_ifs with hc hp hp
  · obtain rfl : cycles = 0 := by
      obtain hnone | hzero | hflag := hc
      · exact absurd (hnone.symm.trans hp.1) Bool.false_ne_true
      · exact hzero
      · exact absurd hp.2 hflag
    simp
  · rfl
  · obtain ⟨hpos, hhi⟩ := hdelay hp.1
    have hless := hlt hp.1 hp.2
    rw [countDown_of_le ⟨hpos.le, hhi⟩ hless.le, if_pos (by omega)]
  · simp only [not_or, Bool.not_eq_false, not_not] at hc
    exact absurd ⟨hc.1, hc.2.2⟩ hp

theorem processReadStream_eq_tick (hdelay : s.reading = true → Delay s.readDelay)
    (hlt : s.reading = true → cycles < s.readDelay) :
    processReadStream disc cycles s = streamTick cycles s := by
  unfold processReadStream streamTick
  split_ifs with hc hp hp
  · obtain hnone | hheld := hc
    · exact absurd (hnone.symm.trans hp.1) Bool.false_ne_true
    · exact absurd (hp.2.symm.trans hheld) Bool.false_ne_true
  · rfl
  · have hless := hlt hp.1
    rw [streamed_eq (hdelay hp.1) hless.le]
    rw [if_neg (by simp only [shift]; omega)]
  · simp only [not_or, Bool.not_eq_false, Bool.not_eq_true] at hc
    exact absurd hc hp

theorem pendingTick_frame (cycles : Nat) (s : State) :
    ∃ p, pendingTick cycles s = { s with pending := p } ∧ p.pending = s.pending.pending ∧
      s.pending.delay - cycles ≤ p.delay := by
  unfold pendingTick
  split
  · exact ⟨_, rfl, rfl, le_rfl⟩
  · exact ⟨s.pending, rfl, rfl, by omega⟩

theorem streamTick_frame (cycles : Nat) (s : State) :
    ∃ counted delay, streamTick cycles s = { s with counted := counted, readDelay := delay } ∧
      s.readDelay - cycles ≤ delay := by
  unfold streamTick
  split
  · exact ⟨_, _, rfl, le_rfl⟩
  · exact ⟨s.counted, s.readDelay, rfl, by omega⟩

theorem agePresentDelay_of_le (h : 0 ≤ delay ∧ delay < 2147483648) (hle : cycles ≤ delay) :
    agePresentDelay delay cycles = delay - cycles := by
  unfold agePresentDelay
  rw [countDown_of_le h hle]
  dsimp only
  split_ifs <;> omega

theorem tick_frame (cycles : Nat) (s : State) :
    ∃ p counted delay,
      tick cycles s = { age cycles s with pending := p, counted := counted, readDelay := delay } ∧
        p.pending = s.pending.pending ∧ s.pending.delay - cycles ≤ p.delay ∧
        s.readDelay - cycles ≤ delay := by
  obtain ⟨p, hp, hpending, hle⟩ := pendingTick_frame cycles (age cycles s)
  obtain ⟨counted, delay, hs, hdelay⟩ := streamTick_frame cycles { age cycles s with pending := p }
  exact ⟨p, counted, delay, by rw [tick, hp, hs], hpending, hle, hdelay⟩

/-- Before the distance an advance only counts down. -/
theorem advance_eq_tick (h : Reachable disc s) (hlt : cycles < cdromCyclesToIrq s) :
    cdromAdvance disc cycles s = tick cycles s := by
  obtain ⟨-, hwaits, hpending, hreading⟩ := (le_cyclesToIrq_iff h).mp hlt
  have hquiet (p : Pending) (counted : Nat) (delay : Int) :
      presentCdromIrq { age cycles s with pending := p, counted := counted, readDelay := delay } =
        { age cycles s with pending := p, counted := counted, readDelay := delay } := by
    refine present_eq fun hflag henabled => ?_
    have hle := hwaits hflag henabled
    have haged := agePresentDelay_of_le h.sound.2.2.1 (show (cycles : Int) ≤ s.presentDelay by omega)
    simp only [age, haged]
    omega
  have hpresent : presentCdromIrq (age cycles s) = age cycles s := hquiet s.pending s.counted s.readDelay
  have hqueued : tryExecuteQueuedCommand disc (age cycles s) = age cycles s := tryExecute_eq h.timed.1
  have hsecond : processPending disc cycles (age cycles s) = pendingTick cycles (age cycles s) :=
    processPending_eq_tick h.timed.2 fun hp _ => by have hle := hpending hp; simp only [age]; omega
  have hstream : processReadStream disc cycles (pendingTick cycles (age cycles s)) = tick cycles s := by
    obtain ⟨p, hp, -, -⟩ := pendingTick_frame cycles (age cycles s)
    rw [tick, hp]
    exact processReadStream_eq_tick h.readDelay fun hr => by have hle := hreading hr; simp only [age]; omega
  unfold cdromAdvance
  dsimp only
  rw [hpresent, hqueued, hsecond, hstream]
  obtain ⟨p, counted, delay, htick, -, -, -⟩ := tick_frame cycles s
  rw [htick]
  exact hquiet p counted delay

theorem le_cyclesToIrq_tick (h : Reachable disc s) (hab : a + b ≤ cdromCyclesToIrq s)
    (hlt : a < cdromCyclesToIrq s) : b ≤ cdromCyclesToIrq (tick a s) := by
  have htick : Reachable disc (tick a s) := by
    have hle := ((le_cyclesToIrq_iff h).mp hab).1
    rw [← advance_eq_tick h hlt]
    exact h.advance (by omega)
  obtain ⟨hmax, hwaits, hpending, hreading⟩ := (le_cyclesToIrq_iff h).mp hab
  rw [le_cyclesToIrq_iff htick]
  obtain ⟨p, counted, delay, heq, hsame, hp, hdelay⟩ := tick_frame a s
  rw [heq]
  refine ⟨by omega, fun hflag henabled => ?_, fun hpend => ?_, fun hread => ?_⟩
  · have hle := hwaits hflag henabled
    have haged := agePresentDelay_of_le h.sound.2.2.1 (show (a : Int) ≤ s.presentDelay by omega)
    simp only [age, haged]
    omega
  · have hle := hpending (hsame.symm.trans hpend)
    dsimp only
    omega
  · have hle := hreading hread
    dsimp only
    omega

theorem runOps_log (h : Reachable disc s) (slices : List (BitVec 32))
    (hlt : (slices.map BitVec.toNat).sum < cdromCyclesToIrq s) :
    (runOps disc (slices.map Op.advance) s).log = s.log := by
  induction slices generalizing s with
  | nil => rfl
  | cons slice slices ih =>
    rw [List.map_cons, List.sum_cons] at hlt
    have hslice : slice.toNat < cdromCyclesToIrq s := by omega
    have hadvance := advance_eq_tick h hslice
    have hrest := le_cyclesToIrq_tick (b := (slices.map BitVec.toNat).sum + 1) h hlt hslice
    have hnext : Reachable disc (tick slice.toNat s) := hadvance ▸ h.advance slice.isLt
    obtain ⟨p, counted, delay, heq, -, -, -⟩ := tick_frame slice.toNat s
    calc (runOps disc ((slice :: slices).map Op.advance) s).log
      _ = (runOps disc (slices.map Op.advance) (cdromAdvance disc slice.toNat s)).log := rfl
      _ = (tick slice.toNat s).log := by rw [hadvance]; exact ih hnext (by omega)
      _ = s.log := by rw [heq]; rfl

/-! ## 4. Two slices -/

theorem present_frame (s : State) : ∃ latched log, presentCdromIrq s = { s with latched := latched, log := log } := by
  unfold presentCdromIrq
  split_ifs
  · exact ⟨s.latched, s.log, rfl⟩
  · exact ⟨_, _, rfl⟩
  · exact ⟨s.latched, s.log, rfl⟩

theorem present_shift (a : Nat) (s : State) : presentCdromIrq (shift a s) = shift a (presentCdromIrq s) := by
  unfold presentCdromIrq
  change (if 0 < s.presentDelay then _ else if s.irqFlag ≠ 0#8 ∧ enabled s.irqFlag s.irqEnable = true ∧
    s.latched = false then _ else _) = _
  split_ifs <;> rfl

theorem present_pending (p : Pending) (s : State) :
    presentCdromIrq { s with pending := p } = { presentCdromIrq s with pending := p } := by
  unfold presentCdromIrq
  split_ifs <;> rfl

theorem present_streamTick (a : Nat) (s : State) :
    presentCdromIrq (streamTick a s) = streamTick a (presentCdromIrq s) := by
  obtain ⟨latched, log, heq⟩ := present_frame s
  rw [streamTick, apply_ite presentCdromIrq, present_shift, heq]
  rfl

theorem present_pendingTick (a : Nat) (s : State) :
    presentCdromIrq (pendingTick a s) = pendingTick a (presentCdromIrq s) := by
  obtain ⟨latched, log, heq⟩ := present_frame s
  rw [pendingTick, apply_ite presentCdromIrq, present_pending, heq]
  rfl

theorem age_streamTick (a b : Nat) (s : State) : age b (streamTick a s) = streamTick a (age b s) :=
  apply_ite (age b) _ _ _

theorem age_pendingTick (a b : Nat) (s : State) : age b (pendingTick a s) = pendingTick a (age b s) :=
  apply_ite (age b) _ _ _

def AgesAlike (delay : Int) (a b : Nat) : Prop :=
  agePresentDelay (agePresentDelay delay a) b = agePresentDelay delay (a + b)

theorem age_age (h : AgesAlike s.presentDelay a b) : age b (age a s) = age (a + b) s := by
  unfold age
  rw [h, Nat.add_assoc]

theorem pendingTick_shift (a b : Nat) (s : State) :
    pendingTick b (shift a s) = shift a (pendingTick b s) := by
  symm
  exact apply_ite (shift a) _ _ _

theorem pendingTick_streamTick (a b : Nat) (s : State) :
    pendingTick b (streamTick a s) = streamTick a (pendingTick b s) := by
  obtain ⟨p, heq, -, -⟩ := pendingTick_frame b s
  rw [streamTick, apply_ite (pendingTick b), pendingTick_shift, heq]
  rfl

theorem pendingTick_pendingTick (a b : Nat) (s : State) :
    pendingTick b (pendingTick a s) = pendingTick (a + b) s := by
  by_cases hc : s.pending.pending = true ∧ s.irqFlag = 0#8
  · have hsum : s.pending.delay - a - b = s.pending.delay - (a + b : Nat) := by omega
    rw [pendingTick_of_pending hc, pendingTick_of_pending hc]
    refine (pendingTick_of_pending (by exact hc)).trans ?_
    rw [hsum]
  · rw [pendingTick_of_not hc, pendingTick_of_not hc, pendingTick_of_not hc]

theorem processReadStream_split (hdelay : s.reading = true → Delay s.readDelay) (hb : 0 < b)
    (hle : s.reading = true → (a + b : Nat) ≤ s.readDelay) :
    processReadStream disc b (streamTick a s) = processReadStream disc (a + b) s := by
  by_cases hc : s.reading = true ∧ streamHeld s = false
  · obtain ⟨hpos, hlt⟩ := hdelay hc.1
    have hsum := hle hc.1
    have hdelay' : Delay (shift a s).readDelay := by
      simp only [shift, Delay]
      omega
    have hshift : shift b (shift a s) = shift (a + b) s := by
      simp [shift, Nat.add_assoc, Nat.cast_add, Int.sub_sub]
    have hno : ¬ (s.reading = false ∨ streamHeld s = true) := by
      rw [hc.1, hc.2]
      decide
    rw [streamTick, if_pos hc]
    unfold processReadStream
    rw [streamed_eq (hdelay hc.1) hsum, streamed_eq hdelay' (by simp only [shift]; omega), hshift,
      if_neg hno]
    exact if_neg hno
  · have hno : s.reading = false ∨ streamHeld s = true := by
      by_cases hreading : s.reading = true
      · exact .inr (Bool.not_eq_false _ ▸ fun hheld => hc ⟨hreading, hheld⟩)
      · exact .inl (Bool.eq_false_iff.mpr hreading)
    rw [streamTick, if_neg hc]
    unfold processReadStream
    rw [if_pos hno, if_pos hno]

theorem reply_shift (bytes : List Byte) (type : Byte) (a : Nat) (s : State) :
    reply bytes type (shift a s) = shift a (reply bytes type s) := by
  have hone (s : State) (b : Byte) : shift a (responsePush s b) = responsePush (shift a s) b :=
    apply_ite (shift a) _ _ _
  rw [reply, reply, List.foldl_hom (shift a) fun s b => (hone s b).symm]
  rfl

theorem completePending_shift {cmd : Command} (h : cmd.twoPhase = true) (a : Nat) (s : State) :
    completePending disc cmd (shift a s) = shift a (completePending disc cmd s) := by
  have hreply (bytes : List Byte) (type : Byte) (s : State) :
      presentCdromIrq (reply bytes type (shift a s)) = shift a (presentCdromIrq (reply bytes type s)) := by
    rw [reply_shift, present_shift]
  cases cmd with
  | motorOn | stop | pause | seekL | seekP => exact hreply _ _ { s with stat := _, setlocSeekFar := _ }
  | init | readTOC => exact hreply _ _ s
  | getID =>
    unfold completePending
    dsimp only
    split
    · exact hreply _ _ s
    · exact hreply _ _ s
  | _ => cases h

theorem processPending_due (hpending : s.pending.pending = true) (h₀ : s.irqFlag = 0#8) (hpos : 0 < cycles)
    (hdue : countDown s.pending.delay cycles = 0) :
    processPending disc cycles s = completePending disc s.pending.cmd (expired cycles s) := by
  unfold processPending
  rw [if_neg, hdue]
  · dsimp only
    rw [if_neg (by decide), expired, hdue]
  · simp only [hpending, h₀, not_or]
    exact ⟨by decide, by omega, by decide⟩

/-- What an advance does when the line has been seen to -/
def stages (disc : Disc) (cycles : Nat) (s : State) : State :=
  processReadStream disc cycles (processPending disc cycles s)

theorem advance_eq (h : s.queued.pending = true → s.irqFlag ≠ 0#8) :
    cdromAdvance disc cycles s = presentCdromIrq (stages disc cycles (presentCdromIrq (age cycles s))) := by
  obtain ⟨latched, log, heq⟩ := present_frame (age cycles s)
  have hqueued : tryExecuteQueuedCommand disc (presentCdromIrq (age cycles s)) =
      presentCdromIrq (age cycles s) := by
    rw [heq]
    exact tryExecute_eq h
  unfold cdromAdvance stages
  dsimp only
  rw [hqueued]

def Within (cycles : Nat) (s : State) : Prop :=
  (s.pending.pending = true → Delay s.pending.delay ∧ cycles ≤ s.pending.delay) ∧
    (s.reading = true → Delay s.readDelay ∧ cycles ≤ s.readDelay)

theorem stages_quiet (h : Within (a + b) s) (hb : 0 < b)
    (hlt : s.pending.pending = true → s.irqFlag = 0#8 → (a + b : Nat) < s.pending.delay) :
    stages disc b (streamTick a (pendingTick a s)) = stages disc (a + b) s := by
  obtain ⟨hpending, hreading⟩ := h
  have hboth : processPending disc (a + b) s = pendingTick (a + b) s :=
    processPending_eq_tick (fun hp => (hpending hp).1) hlt
  have hsecond : processPending disc b (pendingTick a (streamTick a s)) =
      pendingTick b (pendingTick a (streamTick a s)) := by
    obtain ⟨counted, delay, heq, -⟩ := streamTick_frame a s
    rw [heq]
    by_cases hc : s.pending.pending = true ∧ s.irqFlag = 0#8
    · obtain ⟨⟨hpos, hhi⟩, -⟩ := hpending hc.1
      have hless := hlt hc.1 hc.2
      rw [pendingTick_of_pending (by exact hc)]
      refine processPending_eq_tick (fun _ => ⟨?_, ?_⟩) fun _ _ => ?_ <;> dsimp only <;> omega
    · rw [pendingTick_of_not (by exact hc)]
      exact processPending_eq_tick (fun hp => (hpending hp).1) fun hp h₀ => absurd ⟨hp, h₀⟩ hc
  unfold stages
  rw [← pendingTick_streamTick, hsecond, pendingTick_pendingTick, pendingTick_streamTick, hboth]
  obtain ⟨p, heq, -, -⟩ := pendingTick_frame (a + b) s
  rw [heq]
  exact processReadStream_split (fun hr => (hreading hr).1) hb (fun hr => (hreading hr).2)

theorem streamHeld_completed (h : Completed s s') :
    streamHeld s' = false ↔ s.dmaActive = true ∧ s.sectorAvailable = false := by
  cases h with
  | @intro type stat far bytes htype =>
    have hflag : type ≠ 0#8 := by obtain rfl | rfl := htype <;> decide
    change (decide (type ≠ 0#8) && (!s.dmaActive || s.sectorAvailable)) = false ↔ _
    rw [decide_eq_true hflag, Bool.true_and]
    cases s.dmaActive <;> cases s.sectorAvailable <;> decide

section
variable (h : Within (a + b) s) (hok : PendingOk s) (ha : 0 < a) (hb : 0 < b)
  (hpending : s.pending.pending = true) (h₀ : s.irqFlag = 0#8) (hdue : s.pending.delay = (a + b : Nat))
include h hok ha hb hpending h₀ hdue

theorem processPending_split :
    processPending disc b (streamTick a (pendingTick a s)) =
      if s.reading = true then shift a (processPending disc (a + b) s)
      else processPending disc (a + b) s := by
  obtain ⟨hpos, hhi⟩ := (h.1 hpending).1
  have hwhole : countDown s.pending.delay (a + b) = 0 := countDown_due ⟨hpos.le, hhi⟩ hdue
  have hhalf : countDown (s.pending.delay - a) b = 0 := countDown_due (by omega) (by omega)
  rw [processPending_due hpending h₀ (by omega) hwhole, pendingTick_of_pending ⟨hpending, h₀⟩]
  have hexpired : expired b { s with pending := { s.pending with delay := s.pending.delay - a } } =
      expired (a + b) s := by
    unfold expired
    rw [hhalf, hwhole]
  have hheld : streamHeld s = false := by
    unfold streamHeld
    rw [h₀]
    rfl
  by_cases hreading : s.reading = true
  · rw [streamTick, if_pos (by exact ⟨hreading, hheld⟩), if_pos hreading, ← completePending_shift (hok hpending),
      ← hexpired]
    exact processPending_due hpending h₀ hb hhalf
  · rw [streamTick, if_neg (by exact fun hc => hreading hc.1), if_neg hreading, ← hexpired]
    exact processPending_due hpending h₀ hb hhalf

theorem stages_due :
    presentCdromIrq (stages disc b (streamTick a (pendingTick a s))) =
        presentCdromIrq (stages disc (a + b) s) ↔
      ¬ (s.reading = true ∧ ¬ (s.dmaActive = true ∧ s.sectorAvailable = false)) := by
  have hdelay := (h.1 hpending).1
  have hwhole := countDown_due ⟨hdelay.1.le, hdelay.2⟩ hdue
  have hdone : Completed (expired (a + b) s) (processPending disc (a + b) s) := by
    rw [processPending_due hpending h₀ (by omega) hwhole]
    exact completePending_completed disc _ (hok hpending)
  have hheld := streamHeld_completed hdone
  have hfields : (processPending disc (a + b) s).reading = s.reading ∧
      (processPending disc (a + b) s).readDelay = s.readDelay := by
    generalize processPending disc (a + b) s = z at hdone
    cases hdone
    exact ⟨rfl, rfl⟩
  unfold stages
  rw [processPending_split h hok ha hb hpending h₀ hdue]
  generalize processPending disc (a + b) s = z at hheld hfields
  obtain ⟨hreading, hread⟩ := hfields
  by_cases hr : s.reading = true
  · rw [if_pos hr]
    by_cases hz : streamHeld z = false
    · have hon : z.reading = true ∧ streamHeld z = false := ⟨hreading.trans hr, hz⟩
      have hsplit : processReadStream disc b (streamTick a z) = processReadStream disc (a + b) z :=
        processReadStream_split (fun _ => hread ▸ (h.2 hr).1) hb (fun _ => hread ▸ (h.2 hr).2)
      rw [streamTick, if_pos hon] at hsplit
      rw [hsplit]
      exact iff_of_true rfl fun hc => hc.2 (hheld.mp hz)
    · have hno {x : State} (hx : streamHeld x = streamHeld z) (cycles : Nat) :
          processReadStream disc cycles x = x :=
        if_pos (.inr (hx.trans (Bool.not_eq_false _ ▸ hz)))
      rw [hno (x := shift a z) rfl, hno (x := z) rfl, present_shift]
      refine iff_of_false (fun heq => ?_) fun hc => hc ⟨hr, fun hd => hz (hheld.mpr hd)⟩
      have hdelays := congrArg State.readDelay heq
      simp only [shift] at hdelays
      omega
  · rw [if_neg hr]
    have hno (cycles : Nat) : processReadStream disc cycles z = z :=
      if_pos (.inl (hreading.trans (Bool.eq_false_iff.mpr hr)))
    rw [hno, hno]
    exact iff_of_true rfl fun hc => hr hc.1

end

/-! ## 5. The presentation delay in two slices -/

theorem agePresentDelay_eq (h : 0 ≤ delay ∧ delay < 2147483648) (hcycles : cycles < 2 ^ 32) :
    agePresentDelay delay cycles =
      if cycles < delay then delay - cycles
      else if 0 < delay ∧ 2147483648 + delay < cycles then delay - cycles + 4294967296
      else 0 := by
  unfold agePresentDelay countDown CInt.wrap
  rw [Int.bmod_def, Int.bmod_def]
  push_cast
  split_ifs <;> omega

/-- The delay has not run out in the first slice, or the slices together are not negative. -/
def Ages (delay : Int) (a b : Nat) : Prop :=
  0 < delay → a < delay ∨ 2147483648 + delay < a ∨ a + b ≤ 2147483648 + delay

theorem agesAlike_iff (h : 0 ≤ delay ∧ delay < 2147483648) (hab : a + b < 2 ^ 32) :
    AgesAlike delay a b ↔ Ages delay a b := by
  have hfirst := agePresentDelay_eq h (show a < 2 ^ 32 by omega)
  have hbounds : 0 ≤ agePresentDelay delay a ∧ agePresentDelay delay a < 2147483648 := by
    rw [hfirst]
    split_ifs <;> omega
  unfold AgesAlike Ages
  rw [agePresentDelay_eq hbounds (show b < 2 ^ 32 by omega), agePresentDelay_eq h hab, hfirst]
  split_ifs <;> omega

/-! ## 6. The distance, and slices up to it -/

/-- A second response comes up at the end, in a slice in which the stream would have counted. -/
def Overrun (s : State) (a b : Nat) : Prop :=
  0 < a ∧ 0 < b ∧ s.pending.pending = true ∧ s.irqFlag = 0#8 ∧ s.pending.delay = (a + b : Nat) ∧
    s.reading = true ∧ ¬ (s.dmaActive = true ∧ s.sectorAvailable = false)

theorem advance_zero (h : Reachable disc s) (hpresent : presentCdromIrq s = s) : cdromAdvance disc 0 s = s := by
  have hage : age 0 s = s := by
    have hdelay : agePresentDelay s.presentDelay 0 = s.presentDelay - (0 : Nat) :=
      agePresentDelay_of_le h.sound.2.2.1 h.sound.2.2.1.1
    rw [Nat.cast_zero, Int.sub_zero] at hdelay
    unfold age
    rw [hdelay, Nat.add_zero]
  have hpending : processPending disc 0 s = s := if_pos (.inr (.inl rfl))
  have hstream : processReadStream disc 0 s = s := by
    have htick : processReadStream disc 0 s = streamTick 0 s :=
      processReadStream_eq_tick h.readDelay fun hr => (h.readDelay hr).1
    rw [htick, streamTick]
    split_ifs
    · simp [shift]
    · rfl
  rw [advance_eq h.timed.1, hage, hpresent, stages, hpending, hstream, hpresent]

theorem present_present (s : State) : presentCdromIrq (presentCdromIrq s) = presentCdromIrq s := by
  unfold presentCdromIrq
  split_ifs <;> simp_all [note]

theorem advance_advance (h : Reachable disc s) (hlt : a < cdromCyclesToIrq s)
    (hages : AgesAlike s.presentDelay a b) :
    cdromAdvance disc b (cdromAdvance disc a s) =
      presentCdromIrq (stages disc b (streamTick a (pendingTick a (presentCdromIrq (age (a + b) s))))) := by
  have hmax := (le_cyclesToIrq_iff h).mp hlt.le
  have htick := advance_eq_tick h hlt
  have hnext : Reachable disc (tick a s) := htick ▸ h.advance (by omega)
  rw [htick, advance_eq hnext.timed.1, tick, age_streamTick, age_pendingTick, age_age hages,
    present_streamTick, present_pendingTick]

theorem split_of_agesAlike (h : Reachable disc s) (ha : 0 < a) (hb : 0 < b)
    (hab : a + b ≤ cdromCyclesToIrq s) (hages : AgesAlike s.presentDelay a b) :
    cdromAdvance disc b (cdromAdvance disc a s) = cdromAdvance disc (a + b) s ↔ ¬ Overrun s a b := by
  obtain ⟨-, -, hpending, hreading⟩ := (le_cyclesToIrq_iff h).mp hab
  rw [advance_advance h (by omega) hages, advance_eq h.timed.1]
  obtain ⟨latched, log, heq⟩ := present_frame (age (a + b) s)
  rw [heq]
  have hwithin : Within (a + b) { age (a + b) s with latched := latched, log := log } :=
    ⟨fun hp => ⟨h.timed.2 hp, hpending hp⟩, fun hr => ⟨h.readDelay hr, hreading hr⟩⟩
  by_cases hdue : s.pending.pending = true ∧ s.irqFlag = 0#8 ∧ s.pending.delay = (a + b : Nat)
  · obtain ⟨hp, h₀, hd⟩ := hdue
    rw [stages_due hwithin (by exact h.ok.2) ha hb hp h₀ hd]
    unfold Overrun
    simp only [ha, hb, hp, h₀, hd, true_and]
    rfl
  · rw [stages_quiet hwithin hb]
    · exact iff_of_true rfl fun hc => hdue ⟨hc.2.2.1, hc.2.2.2.1, hc.2.2.2.2.1⟩
    · intro hp h₀
      exact lt_of_le_of_ne (hpending hp) fun hd => hdue ⟨hp, h₀, hd.symm⟩

theorem advance_presentDelay (h : Reachable disc s) (hp : s.pending.pending = false)
    (hr : s.reading = false) :
    (cdromAdvance disc cycles s).presentDelay = agePresentDelay s.presentDelay cycles := by
  obtain ⟨latched, log, heq⟩ := present_frame (age cycles s)
  have hstages : stages disc cycles { age cycles s with latched := latched, log := log } =
      { age cycles s with latched := latched, log := log } := by
    unfold stages processPending
    rw [if_pos (.inl hp)]
    exact if_pos (.inl hr)
  rw [advance_eq h.timed.1, heq, hstages]
  obtain ⟨latched', log', heq'⟩ := present_frame { age cycles s with latched := latched, log := log }
  rw [heq']
  rfl

theorem advance_advance_presentDelay (h : Reachable disc s) (hlt : a < cdromCyclesToIrq s)
    (hp : s.pending.pending = false) (hr : s.reading = false) :
    (cdromAdvance disc b (cdromAdvance disc a s)).presentDelay =
      agePresentDelay (agePresentDelay s.presentDelay a) b := by
  have hmax := (le_cyclesToIrq_iff h).mp hlt.le
  have htick := advance_eq_tick h hlt
  obtain ⟨p, counted, delay, heq, hpending, -, -⟩ := tick_frame a s
  have hnext : Reachable disc (cdromAdvance disc a s) := h.advance (by omega)
  rw [htick, heq] at hnext
  rw [htick, heq, advance_presentDelay hnext (by exact hpending.trans hp) (by exact hr)]
  rfl

/-- Up to and including the distance two slices do what one does, but for two cases. A second response
that comes up at the end holds the stream for the *whole* slice it comes up in, so that the sector is
later by all of a long slice and by less of a short one (`Overrun`). And a slice of 2³¹ cycles or more
is negative as an `int`, so that a presentation delay that is not waited for can grow by it (`Ages`). -/
theorem split_iff (h : Reachable disc s) (hab : a + b ≤ cdromCyclesToIrq s) :
    cdromAdvance disc b (cdromAdvance disc a s) = cdromAdvance disc (a + b) s ↔
      ¬ Overrun s a b ∧ Ages s.presentDelay a b := by
  obtain ⟨hmax, hwaits, hpending, hreading⟩ := (le_cyclesToIrq_iff h).mp hab
  rw [← agesAlike_iff h.sound.2.2.1 (show a + b < 2 ^ 32 by omega)]
  by_cases hb : b = 0
  · subst hb
    have hidle : presentCdromIrq (cdromAdvance disc a s) = cdromAdvance disc a s := by
      exact present_present _
    have halike : AgesAlike s.presentDelay a 0 :=
      (agesAlike_iff h.sound.2.2.1 (by omega)).mpr fun _ => by omega
    exact iff_of_true (advance_zero (h.advance (by omega)) hidle) ⟨fun hc => absurd hc.2.1 (by decide), halike⟩
  by_cases ha : a = 0
  · subst ha
    have hidle : presentCdromIrq s = s := present_eq fun hflag henabled => by
      have hle := hwaits hflag henabled
      omega
    have halike : AgesAlike s.presentDelay 0 b :=
      (agesAlike_iff h.sound.2.2.1 (by omega)).mpr fun hpos => .inl (by exact_mod_cast hpos)
    rw [advance_zero h hidle, Nat.zero_add]
    exact iff_of_true rfl ⟨fun hc => absurd hc.1 (by decide), halike⟩
  by_cases halike : AgesAlike s.presentDelay a b
  · rw [split_of_agesAlike h (by omega) (by omega) hab halike, and_iff_left halike]
  · refine iff_of_false (fun heq => ?_) fun hc => halike hc.2
    -- a delay that is aged differently is longer than any countdown that would end the slices
    have hlong : 2147483648 ≤ ((a + b : Nat) : Int) := by
      rw [agesAlike_iff h.sound.2.2.1 (by omega)] at halike
      unfold Ages at halike
      omega
    have hp : s.pending.pending = false := by
      refine Bool.eq_false_iff.mpr fun hp => ?_
      have hle := hpending hp
      have hlt := (h.timed.2 hp).2
      omega
    have hr : s.reading = false := by
      refine Bool.eq_false_iff.mpr fun hr => ?_
      have hle := hreading hr
      have hlt := (h.readDelay hr).2
      omega
    have hdelays := congrArg State.presentDelay heq
    rw [advance_advance_presentDelay h (by omega) hp hr, advance_presentDelay h hp hr] at hdelays
    exact halike hdelays

/-- **How far the scheduler may go.** Less than `cdrom_cycles_to_irq` cycles, in any slices: nothing is
raised, no sector is fetched, no second response comes up; the log stays as it is. Up to the distance:
two slices leave the state that one leaves, if and only if there is neither an overrun nor an aged
delay. -/
theorem cd_distance_iff (h : Reachable disc s) :
    (∀ slices : List (BitVec 32), (slices.map BitVec.toNat).sum < cdromCyclesToIrq s →
        (runOps disc (slices.map Op.advance) s).log = s.log) ∧
      ∀ a b : Nat, a + b ≤ cdromCyclesToIrq s →
        (cdromAdvance disc b (cdromAdvance disc a s) = cdromAdvance disc (a + b) s ↔
          ¬ Overrun s a b ∧ Ages s.presentDelay a b) :=
  ⟨runOps_log h, fun _ _ => split_iff h⟩

end

/-- `ReadN` and `GetID`, each acknowledged -/
def readAndIdentify : State :=
  runOps blankDisc
    [.command 0x06#8, .index 1#8, .ack, .index 0#8, .command 0x1A#8, .index 1#8, .ack]
    (cdromInit blankDisc 1 32 false)

theorem cd_distance_identify :
    (runOps blankDisc ([10000#32, 19999#32].map Op.advance) readAndIdentify).log = readAndIdentify.log ∧
      cdromAdvance blankDisc 10000 (cdromAdvance blankDisc 10000 readAndIdentify) =
        cdromAdvance blankDisc (10000 + 10000) readAndIdentify := by
  have hreach : Reachable blankDisc readAndIdentify := (reachable_init blankDisc).runOps _
  refine ⟨(cd_distance_iff hreach).1 [10000#32, 19999#32] (by decide +kernel), ?_⟩
  refine ((cd_distance_iff hreach).2 10000 10000 (by decide +kernel)).mpr ⟨?_, ?_⟩
  · unfold Overrun
    decide +kernel
  · unfold Ages
    decide +kernel

/-- The second response of `GetID` is due in 30000 cycles. In one slice, the stream counts none of them;
in two, it counts the first slice. -/
theorem second_response_holds_stream :
    Reachable blankDisc readAndIdentify ∧ cdromCyclesToIrq readAndIdentify = 30000 ∧
      (cdromAdvance blankDisc 20000 (cdromAdvance blankDisc 10000 readAndIdentify)).readDelay = 893168 ∧
      (cdromAdvance blankDisc 30000 readAndIdentify).readDelay = 903168 :=
  ⟨(reachable_init blankDisc).runOps _, by decide +kernel, by decide +kernel, by decide +kernel⟩

end PsxRecomp.Cdrom
