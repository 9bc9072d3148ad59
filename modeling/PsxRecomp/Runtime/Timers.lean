import PsxRecomp.Lib.Runs
import PsxRecomp.Machine.Cpu

/-!
# `Runtime/Timers.lean` — the root counters

The three root counters of `timers.c`: the registers, one count of a counter (`timer_tick_one`), many
counts at once (`timer_advance_counts`), the clock dividers, and the distance to the next interrupt that
the cycle slicer asks for.
-/

set_option autoImplicit false

namespace PsxRecomp.Timers

open Logged BitVec

/-! ## 1. One counter -/

/-- `MODE_RESET_TARGET` … `MODE_OVERFLOW_FLAG`, as bit positions -/
abbrev resetTarget : Nat := 3
abbrev irqTarget : Nat := 4
abbrev irqOverflow : Nat := 5
abbrev irqRepeat : Nat := 6
abbrev irqToggle : Nat := 7
abbrev clkSrc1 : Nat := 9
abbrev irqRequest : Nat := 10
abbrev targetFlag : Nat := 11
abbrev overflowFlag : Nat := 12

/-- `1 << i` -/
def bit (i : Nat) : Word := 1#32 <<< i

structure Timer where
  counter : BitVec 16 := 0#16
  mode : Word := 0#32
  target : BitVec 16 := 0#16
  /-- the line in toggle mode -/
  irqLine : Word := 0#32
deriving DecidableEq, Repr

/-- An interrupt that was due: whether `psx_irq_raise` was called, and the counter then -/
structure Fire where
  raised : Bool
  counter : BitVec 16
deriving DecidableEq, Repr

namespace Timer

/-- `tm->mode & (1 << i)` -/
def has (tm : Timer) (i : Nat) : Bool := tm.mode.getLsbD i

def setMode (tm : Timer) (m : Word) : Timer := { tm with mode := m }

/-- `tm->mode |= 1 << i` -/
def flag (tm : Timer) (i : Nat) : Timer := tm.setMode (tm.mode ||| bit i)

/-- `tm->mode &= ~(1 << i)` -/
def unflag (tm : Timer) (i : Nat) : Timer := tm.setMode (tm.mode &&& ~~~(bit i))

end Timer

/-- `timer_fire_irq`: the line and the request bit -/
def requestIrq (tm : Timer) : Timer × Bool :=
  if tm.has irqToggle then
    let tm := { tm with irqLine := tm.irqLine ^^^ 1#32 }
    if tm.irqLine ≠ 0#32 then (tm.unflag irqRequest, true) else (tm.flag irqRequest, false)
  else ((tm.unflag irqRequest).flag irqRequest, true)

def timerFireIrq (tm : Timer) : Timer × Fire :=
  let (tm, raised) := requestIrq tm
  -- one-shot: both sources are disarmed
  let tm := if tm.has irqRepeat then tm else tm.setMode (tm.mode &&& ~~~(bit irqTarget ||| bit irqOverflow))
  (tm, ⟨raised, tm.counter⟩)

/-- `if (tm->mode & armed) timer_fire_irq(t)` -/
def fireIf (armed : Nat) (tm : Timer) : Timer × List Fire :=
  if tm.has armed then ((timerFireIrq tm).1, [(timerFireIrq tm).2]) else (tm, [])

def atTarget (tm : Timer) : Timer × List Fire :=
  let (tm, fired) := fireIf irqTarget (tm.flag targetFlag)
  (if tm.has resetTarget then { tm with counter := 0#16 } else tm, fired)

def atOverflow (tm : Timer) : Timer × List Fire := fireIf irqOverflow (tm.flag overflowFlag)

def cond (p : Bool) (f : Timer → Timer × List Fire) (tm : Timer) : Timer × List Fire :=
  if p then f tm else (tm, [])

/-- What follows a change of the counter, in the source's order -/
def events (target overflow : Bool) : Timer → Timer × List Fire :=
  andThen (cond target atTarget) (cond overflow atOverflow)

def timerTickOne (tm : Timer) : Timer × List Fire :=
  events (tm.counter + 1#16 = tm.target) (tm.counter = 0xFFFF#16)
    { tm with counter := tm.counter + 1#16 }

namespace Timer

def targetDist (tm : Timer) : Nat :=
  if (tm.target - tm.counter).toNat = 0 then 0x10000 else (tm.target - tm.counter).toNat

def overflowDist (tm : Timer) : Nat := 0x10000 - tm.counter.toNat

theorem targetDist_pos (tm : Timer) : 0 < tm.targetDist := by
  unfold targetDist
  split_ifs <;> omega

theorem overflowDist_pos (tm : Timer) : 0 < tm.overflowDist := by
  unfold overflowDist
  omega

/-- The `step` of one round of `timer_advance_counts`; `if (step == 0) step = 1` included -/
def stepOf (ticks : Nat) (tm : Timer) : Nat :=
  let step := min (min ticks tm.targetDist) tm.overflowDist
  if step = 0 then 1 else step

theorem stepOf_pos (ticks : Nat) (tm : Timer) : 0 < tm.stepOf ticks := by
  unfold stepOf
  dsimp only
  split_ifs <;> omega

end Timer

/-- One round of the loop of `timer_advance_counts` -/
def advanceRound (step : Nat) (tm : Timer) : Timer × List Fire :=
  events (step = tm.targetDist) (tm.counter.toNat + step > 0xFFFF ∨ step = tm.overflowDist)
    { tm with counter := tm.counter + BitVec.ofNat 16 step }

def timerAdvanceCounts (ticks : Nat) (tm : Timer) : Timer × List Fire :=
  if ticks = 0 then (tm, [])
  else andThen (advanceRound (tm.stepOf ticks)) (timerAdvanceCounts (ticks - tm.stepOf ticks)) tm
termination_by ticks
decreasing_by
  exact Nat.sub_lt (Nat.pos_of_ne_zero ‹_›) (Timer.stepOf_pos ..)

/-! ## 2. The bulk advance is ticking -/
section
variable {tm : Timer} {k : Nat}

/-- The counter `k` counts on -/
def Timer.count (tm : Timer) (k : Nat) : Timer := { tm with counter := tm.counter + BitVec.ofNat 16 k }

theorem Timer.count_counter (tm : Timer) (k : Nat) :
    (tm.count k).counter.toNat = (tm.counter.toNat + k) % 2 ^ 16 := by
  simp [count, toNat_add]

theorem Timer.toNat_targetDist (tm : Timer) :
    tm.targetDist % 2 ^ 16 = (tm.target.toNat + 2 ^ 16 - tm.counter.toNat) % 2 ^ 16 ∧
      tm.targetDist ≤ 2 ^ 16 := by
  unfold targetDist
  rw [toNat_sub]
  split_ifs <;> omega

theorem Timer.count_eq_target_iff (hk : 0 < k) (hle : k ≤ tm.targetDist) :
    (tm.count k).counter = tm.target ↔ k = tm.targetDist := by
  obtain ⟨hmod, hbound⟩ := tm.toNat_targetDist
  rw [← toNat_inj, count_counter]
  omega

theorem Timer.count_succ (tm : Timer) (k : Nat) :
    { tm.count k with counter := (tm.count k).counter + 1#16 } = tm.count (k + 1) := by
  simp [count, ofNat_add, BitVec.add_assoc]

theorem timerTickOne_count (hk : k < tm.overflowDist) :
    timerTickOne (tm.count k) =
      events ((tm.count (k + 1)).counter = tm.target) (k + 1 = tm.overflowDist) (tm.count (k + 1)) := by
  have hwrap : (tm.count k).counter = 0xFFFF#16 ↔ k + 1 = tm.overflowDist := by
    rw [← toNat_inj, Timer.count_counter]
    simp only [Timer.overflowDist, toNat_ofNat] at hk ⊢
    omega
  have hnext : (tm.count k).counter + 1#16 = (tm.count (k + 1)).counter :=
    congrArg Timer.counter (tm.count_succ k)
  rw [timerTickOne, Timer.count_succ, hnext]
  simp only [hwrap]
  rfl

/-- Between events a tick only counts. -/
theorem times_tick_quiet (ht : k < tm.targetDist) (ho : k < tm.overflowDist) :
    times timerTickOne k tm = (tm.count k, []) := by
  induction k with
  | zero => simp [Timer.count]
  | succ k ih =>
    have hstep : ¬ (tm.count (k + 1)).counter = tm.target := by
      rw [Timer.count_eq_target_iff (by omega) (by omega)]
      omega
    rw [times_succ_last, andThen, ih (by omega) (by omega), timerTickOne_count (by omega)]
    simp [events, andThen, cond, hstep, Nat.ne_of_lt ho]

/-- One round of the loop, which jumps from one event to the next, is so many ticks. -/
theorem times_tick_round {step : Nat} (hpos : 0 < step) (ht : step ≤ tm.targetDist)
    (ho : step ≤ tm.overflowDist) : times timerTickOne step tm = advanceRound step tm := by
  obtain ⟨k, rfl⟩ : ∃ k, step = k + 1 := ⟨step - 1, by omega⟩
  have hwrap : (tm.counter.toNat + (k + 1) > 0xFFFF ∨ k + 1 = tm.overflowDist) ↔
      k + 1 = tm.overflowDist := by
    unfold Timer.overflowDist at ho ⊢
    omega
  rw [times_succ_last, andThen, times_tick_quiet (by omega) (by omega), timerTickOne_count (by omega),
    advanceRound]
  simp only [Timer.count_eq_target_iff hpos ht, hwrap, List.nil_append]
  rfl

theorem Timer.stepOf_le {ticks : Nat} (h : ticks ≠ 0) :
    tm.stepOf ticks ≤ ticks ∧ tm.stepOf ticks ≤ tm.targetDist ∧ tm.stepOf ticks ≤ tm.overflowDist := by
  have ht := tm.targetDist_pos
  have ho := tm.overflowDist_pos
  unfold stepOf
  dsimp only
  split_ifs <;> omega

theorem advance_eq_times (n : Nat) (tm : Timer) :
    timerAdvanceCounts n tm = times timerTickOne n tm := by
  induction n using Nat.strong_induction_on generalizing tm with
  | _ n ih =>
    by_cases hn : n = 0
    · rw [timerAdvanceCounts, if_pos hn, hn, times_zero]
    · obtain ⟨hle, ht, ho⟩ := tm.stepOf_le hn
      have hpos := tm.stepOf_pos n
      obtain ⟨rest, hrest⟩ := Nat.exists_eq_add_of_le hle
      have hround := times_tick_round hpos ht ho
      rw [timerAdvanceCounts, if_neg hn]
      generalize tm.stepOf n = step at *
      have hlater : timerAdvanceCounts rest (advanceRound step tm).1 =
          times timerTickOne rest (advanceRound step tm).1 := ih rest (by omega) _
      rw [hrest, times_add, Nat.add_sub_cancel_left]
      simp [andThen, hround, hlater]

/-- Advancing by `n` counts is `n` ticks: the same counter, mode and line, and the same interrupts in the
same order. So an advance may be cut anywhere. -/
theorem advance_eq_ticks (tm : Timer) :
    (∀ n, timerAdvanceCounts n tm = times timerTickOne n tm) ∧
    ∀ a b, timerAdvanceCounts (a + b) tm = andThen (timerAdvanceCounts a) (timerAdvanceCounts b) tm := by
  refine ⟨fun n => advance_eq_times n tm, fun a b => ?_⟩
  simp [andThen, advance_eq_times, times_add]

end

/-! ## 3. The three counters and their clocks -/

/-- A counter, and `timer_frac`: the cycles its divided clock has not counted yet -/
structure Channel where
  timer : Timer := {}
  frac : Word := 0#32
deriving DecidableEq, Repr

abbrev State := Fin 3 → Channel

instance neZero_timers : NeZero 3 := ⟨by decide⟩

/-- `(timers[t].mode >> 8) & 3` -/
def clockSource (tm : Timer) : Word := (tm.mode >>> 8) &&& 3#32

def timerUsesSysclk (t : Fin 3) (tm : Timer) : Bool :=
  if t = 2 then clockSource tm = 0#32 ∨ clockSource tm = 1#32
  else clockSource tm = 0#32 ∨ clockSource tm = 2#32

/-- `timer_advance_divided`: the sum of fraction and cycles is a `uint32_t`. -/
def timerAdvanceDivided (cycles divisor : Word) (ch : Channel) : Channel × List Fire :=
  let divisor := if divisor = 0#32 then 1#32 else divisor
  let total := ch.frac + cycles
  let ticks := total / divisor
  let r := if ticks ≠ 0#32 then timerAdvanceCounts ticks.toNat ch.timer else (ch.timer, [])
  (⟨r.1, total % divisor⟩, r.2)

/-- The body of the loop of `timers_advance` -/
def channelAdvance (t : Fin 3) (cycles : Word) (ch : Channel) : Channel × List Fire :=
  if t = 2 ∧ (clockSource ch.timer = 2#32 ∨ clockSource ch.timer = 3#32) then
    timerAdvanceDivided cycles 8#32 ch
  else if timerUsesSysclk t ch.timer then
    let r := timerAdvanceCounts cycles.toNat ch.timer
    (⟨r.1, ch.frac⟩, r.2)
  else if t = 1 then timerAdvanceDivided cycles 2146#32 ch
  else if t = 0 then timerAdvanceDivided cycles 5#32 ch
  else (ch, [])

def timersAdvance (cycles : Word) (s : State) : State × List (Fin 3 × Fire) :=
  if cycles = 0#32 then (s, [])
  else (fun t => (channelAdvance t cycles (s t)).1,
    [0, 1, 2].flatMap fun t => (channelAdvance t cycles (s t)).2.map (t, ·))

def timerDivisor (t : Fin 3) (tm : Timer) : Nat :=
  if t = 2 ∧ (clockSource tm = 2#32 ∨ clockSource tm = 3#32) then 8
  else if timerUsesSysclk t tm then 1
  else if t = 1 then 2146
  else if t = 0 then 5
  else 1

/-- `timer_irq[t]` -/
def timerIrq (t : Fin 3) : Nat := 4 + t

/-- `ticks` in `timers_cycles_to_irq`, if the counter is armed -/
def ticksToIrq (tm : Timer) : Nat :=
  min (if tm.has irqTarget then tm.targetDist else 0xFFFFFFFF)
    (if tm.has irqOverflow then tm.overflowDist else 0xFFFFFFFF)

/-- What one counter contributes to `timers_cycles_to_irq` -/
def cyclesToIrq (iMask : Word) (t : Fin 3) (ch : Channel) : Nat :=
  if iMask.getLsbD (timerIrq t) = false then 0xFFFFFFFF
  else if ch.timer.has irqTarget = false ∧ ch.timer.has irqOverflow = false then 0xFFFFFFFF
  else if ticksToIrq ch.timer = 0xFFFFFFFF then 0xFFFFFFFF
  else
    let cyc := ticksToIrq ch.timer * timerDivisor t ch.timer
    min (if ch.frac.toNat < cyc then cyc - ch.frac.toNat else 0) 0xFFFFFFFF

def timersCyclesToIrq (iMask : Word) (s : State) : Nat :=
  [0, 1, 2].foldl (fun best t => min best (cyclesToIrq iMask t (s t))) 0xFFFFFFFF

def timerBase : Word := 0x1F801100#32

/-- The counter and the register that an address selects -/
def select (addr : Word) : Option (Fin 3 × Word) :=
  let off := addr - timerBase
  if h : (off >>> 4).toNat < 3 then some (⟨(off >>> 4).toNat, h⟩, off &&& 0xF#32) else none

def State.modify (s : State) (t : Fin 3) (f : Channel → Channel) : State :=
  Function.update s t (f (s t))

def Channel.onTimer (f : Timer → Timer) (ch : Channel) : Channel := { ch with timer := f ch.timer }

/-- The read of a counter in the build without block cycles: the counter moves. -/
def nudge (t : Fin 3) (tm : Timer) : Timer :=
  let inc : BitVec 16 := if t = 2 ∧ tm.has clkSrc1 then 1#16 else 8#16
  let old := tm.counter
  let tm := { tm with counter := tm.counter + inc }
  if tm.target ≠ 0#16 ∧ old < tm.target ∧ tm.target ≤ tm.counter then
    let tm := tm.flag targetFlag
    if tm.has resetTarget then { tm with counter := 0#16 } else tm
  else tm

/-- `timers_read`; `blockCycles` is `PSX_ENABLE_BLOCK_CYCLES`. -/
def timersRead (blockCycles : Bool) (addr : Word) (s : State) : State × Word :=
  match select addr with
  | none => (s, 0#32)
  | some (t, reg) =>
    if reg = 0x0#32 then
      let s := if blockCycles then s else s.modify t (.onTimer (nudge t))
      (s, (s t).timer.counter.setWidth 32)
    else if reg = 0x4#32 then
      (s.modify t (.onTimer fun tm => tm.setMode (tm.mode &&& ~~~(bit targetFlag ||| bit overflowFlag))),
        (s t).timer.mode)
    else if reg = 0x8#32 then (s, (s t).timer.target.setWidth 32)
    else (s, 0#32)

def timersWrite (addr value : Word) (s : State) : State :=
  match select addr with
  | none => s
  | some (t, reg) =>
    if reg = 0x0#32 then s.modify t (.onTimer fun tm => { tm with counter := value.setWidth 16 })
    else if reg = 0x4#32 then
      s.modify t fun ch => ⟨{ ch.timer with
        mode := (value &&& 0x03FF#32) ||| bit irqRequest, counter := 0#16, irqLine := 0#32 }, 0#32⟩
    else if reg = 0x8#32 then s.modify t (.onTimer fun tm => { tm with target := value.setWidth 16 })
    else s

/-- `for (int c = 0; c < ticks; c++) timer_tick_one(t)` -/
def Channel.ticks (n : Int) (ch : Channel) : Channel :=
  ch.onTimer fun tm => (times timerTickOne n.toNat tm).1

/-- `timers_tick`, the advance of the build without block cycles -/
def timersTick (cycles : Int) (s : State) : State :=
  let s := if timerUsesSysclk 1 (s 1).timer then s else s.modify 1 (.ticks 263)
  fun t =>
    if timerUsesSysclk t (s t).timer then (s t).ticks cycles
    else if t = 2 then (s t).ticks (cycles.tdiv 8)
    else s t

inductive Op where
  | read (addr : Word)
  | write (addr value : Word)
  | advance (cycles : Word)
  | tick (cycles : Int)

def step (blockCycles : Bool) : Op → State → State
  | .read addr, s => (timersRead blockCycles addr s).1
  | .write addr value, s => timersWrite addr value s
  | .advance cycles, s => (timersAdvance cycles s).1
  | .tick cycles, s => timersTick cycles s

/-- The states after `timers_init` and any accesses and advances -/
def Reached (blockCycles : Bool) : State → Prop :=
  Runs.Reached (fun op s => some (step blockCycles op s)) (fun _ _ => True) (fun s => s = fun _ => {})

end PsxRecomp.Timers
