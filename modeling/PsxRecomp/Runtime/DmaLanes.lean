import PsxRecomp.Runtime.Dicr
import PsxRecomp.Runtime.DmaWords

/-!
# `Runtime/DmaLanes.lean` — a slice, channel by channel

While the readiness of the devices does not change, what `dma_advance` does to a channel depends on that
channel alone: on its registers and its running transfer or timer (`Lane`), on its enable bit and on its
device. `Lane.outcome` is what a slice makes of a lane.
-/

set_option autoImplicit false

namespace PsxRecomp.Dma

open List BitVec Bool

/-! ## 1. Devices that stay as they are -/

structure Ready where
  mdecWrite : Bool
  mdecRead : Bool
  cdrom : Bool

/-- RAM, the cache isolation bit, the readiness of the devices, the words they have for channels 1 and 3,
the length of a sector, and `I_STAT` -/
structure Steady where
  ram : Nat → Ram.Byte
  isolated : Bool
  ready : Ready
  data : Fin 7 → Nat → Word
  sectorWords : Nat
  iStat : Word

open Steady

/-- RAM after the words `ws`, if the cache is not isolated -/
def Steady.stored (e : Steady) (ws : List (Nat × Word)) : Nat → Ram.Byte :=
  if e.isolated then e.ram else Ram.writeWords e.ram ws

/-- `n` words of channel `ch` have been read. -/
def Steady.pop (e : Steady) (ch : Fin 7) (n : Nat) : Steady :=
  { e with data := Function.update e.data ch fun i => e.data ch (i + n) }

def steadyBus : Bus Steady where
  readWord e addr := Words.leWord e.ram (Ram.physAddr addr)
  writeWord e _ addr val :=
    match Ram.storeTarget e.isolated addr with
    | none => e
    | some phys => { e with ram := Ram.write e.ram phys (Ram.Width.word.bytes val) }
  mdecWriteReady e := e.ready.mdecWrite
  mdecWriteWord e _ := e
  mdecReadReady e := e.ready.mdecRead
  mdecReadWord e := (e.data 1 0, e.pop 1 1)
  gpuRead e := (0#32, e)
  gpuWrite e _ _ := e
  spuWrite e _ := e
  cdromReady e := e.ready.cdrom
  cdromRead e := (e.data 3 0, e.pop 3 1)
  cdromSectorWords e := e.sectorWords
  markExecutable e _ := e
  -- `i_stat |= 1u << 3`
  irqRaise e _ := { e with iStat := e.iStat ||| 8#32 }

def feed (step : Word) (data : Nat → Word) : Nat → Word → List (Nat × Word)
  | 0, _ => []
  | n + 1, a => (a.toNat, data 0) :: feed step (fun i => data (i + 1)) n (nextAddr step a)

/-- The environment after `n` words of channel `ch`, which go to RAM from channels 1 and 3 only -/
def Steady.take (e : Steady) (ch : Fin 7) (step : Word) (n : Nat) (a : Word) : Steady :=
  if ch = 1 ∨ ch = 3 then { e.pop ch n with ram := e.stored (feed step (e.data ch) n a) } else e

variable (e : Steady)

section
variable {step : Word} {data : Nat → Word} {a : Word} {n : Nat}

theorem map_fst_feed (step : Word) (data : Nat → Word) (n : Nat) (a : Word) :
    (feed step data n a).map Prod.fst = (addresses step n a).map BitVec.toNat := by
  induction n generalizing a data with
  | zero => rfl
  | succ n ih => rw [feed, map_cons, ih, addresses, map_cons]

theorem feed_append (step : Word) (data : Nat → Word) (m n : Nat) (a : Word) :
    feed step data (m + n) a =
      feed step data m a ++ feed step (fun i => data (i + m)) n (addrAfter step m a) := by
  induction m generalizing a data with
  | zero => simp [feed, addrAfter]
  | succ m ih =>
    rw [Nat.succ_add, feed, ih, feed, List.cons_append, addrAfter_succ]
    simp [Nat.add_assoc, Nat.add_comm m 1]

theorem writeWord_steady {e : Steady} {ch : Fin 7} (ha : InRam a) (v : Word) :
    steadyBus.writeWord e ch a v = { e with ram := e.stored [(a.toNat, v)] } := by
  obtain ⟨ram, isolated, ready, data, iStat⟩ := e
  cases isolated with
  | false => simp [steadyBus, stored, storeTarget_inRam ha, Ram.writeWords]
  | true => simp [steadyBus, stored, Ram.storeTarget]

theorem stored_stored (ws ws' : List (Nat × Word)) :
    Steady.stored { e with ram := e.stored ws } ws' = e.stored (ws ++ ws') := by
  unfold stored
  dsimp only
  split_ifs
  · rfl
  · exact (Ram.writeWords_append ws ws').symm

@[simp] theorem stored_nil : e.stored [] = e.ram := by
  unfold stored
  split_ifs <;> rfl

@[simp] theorem pop_data (ch : Fin 7) (n : Nat) :
    (e.pop ch n).data ch = fun i => e.data ch (i + n) := Function.update_self ..

theorem pop_pop (ch : Fin 7) (m n : Nat) : (e.pop ch m).pop ch n = e.pop ch (m + n) := by
  simp [pop, Nat.add_assoc, Nat.add_comm n m]

theorem pop_with_ram (ch : Fin 7) (n : Nat) (ram : Nat → Ram.Byte) :
    Steady.pop { e with ram := ram } ch n = { e.pop ch n with ram := ram } := rfl

theorem foldl_pop (ch : Fin 7) (h : InRam a) (n : Nat) (e : Steady) :
    (addresses step n a).foldl (fun e a => steadyBus.writeWord (e.pop ch 1) ch a (e.data ch 0)) e =
      { e.pop ch n with ram := e.stored (feed step (e.data ch) n a) } := by
  induction n generalizing a e with
  | zero => simp [addresses, feed, pop]
  | succ n ih =>
    rw [addresses, foldl_cons, writeWord_steady h, ih (inRam_nextAddr step a), pop_with_ram, pop_pop,
      stored_stored, Nat.add_comm 1 n, pop_data]
    rfl

end

/-! ## 2. Lanes -/

structure Lane where
  chan : Channel
  async : Async
  delayed : Delayed

open Lane

def State.lane {E : Type} (s : State E) (ch : Fin 7) : Lane := ⟨s.channels ch, s.async ch, s.delayed ch⟩

open State

inductive Phase where
  | rest
  /-- an MDEC transfer against the direction of its channel, which ends at once -/
  | wrongWay
  | moves (cyclesPerWord : Nat)
  | timer
  deriving DecidableEq

/-- What a running transfer does, by its direction and its device -/
def Channel.phase (c : Channel) (r : Ready) : Fin 7 → Phase
  | 0 => if c.direction then if r.mdecWrite then .moves 1 else .rest else .wrongWay
  | 1 => if c.direction then .wrongWay else if r.mdecRead then .moves 14 else .rest
  | 3 => if c.direction then .rest else if r.cdrom then .moves 1 else .rest
  | _ => .rest

open Channel

/-- The conditions of `advance_mdec_channel`, of the CD part of `dma_advance` and of
`advance_delayed_complete` -/
def Lane.phase (l : Lane) (r : Ready) (enabled : Bool) (ch : Fin 7) : Phase :=
  if ch = 2 ∨ ch = 4 then if l.delayed.active then .timer else .rest
  else if l.async.active && l.chan.busy && enabled then l.chan.phase r ch
  else .rest

/-- The lane after a slice, the words moved in it, and whether the transfer has completed -/
structure Outcome where
  lane : Lane
  words : Nat
  done : Bool

/-- The words `n` cycles allow -/
def Lane.budget (l : Lane) (cyclesPerWord n : Nat) : Nat :=
  min l.async.remainingWords ((l.async.cyclesAccum + n) / cyclesPerWord)

/-- `MADR` is written with the first word. -/
def Channel.advanced (c : Channel) (k : Nat) : Channel :=
  if k = 0 then c else { c with madr := addrAfter c.addrStep k c.startAddr }

def Lane.outcome (l : Lane) (n : Nat) : Phase → Outcome
  | .rest => ⟨l, 0, false⟩
  | .wrongWay => ⟨⟨l.chan.stop, {}, {}⟩, 0, true⟩
  | .moves cyclesPerWord =>
    let k := l.budget cyclesPerWord n
    if k = l.async.remainingWords then ⟨⟨(l.chan.advanced k).stop, {}, {}⟩, k, true⟩
    else ⟨⟨l.chan.advanced k, { l.async with
      remainingWords := l.async.remainingWords - k,
      cyclesAccum := l.async.cyclesAccum + n - k * cyclesPerWord }, l.delayed⟩, k, false⟩
  | .timer =>
    if n < l.delayed.cyclesRemaining then
      ⟨{ l with delayed := { l.delayed with cyclesRemaining := l.delayed.cyclesRemaining - n } }, 0, false⟩
    else ⟨⟨l.chan.stop, l.async, {}⟩, 0, true⟩

section
variable {l : Lane} {c n : Nat}

theorem outcome_done (h : l.budget c n = l.async.remainingWords) : l.outcome n (.moves c) =
    ⟨⟨(l.chan.advanced (l.budget c n)).stop, {}, {}⟩, l.budget c n, true⟩ := if_pos h

theorem outcome_going (h : l.budget c n ≠ l.async.remainingWords) : l.outcome n (.moves c) =
    ⟨⟨l.chan.advanced (l.budget c n), { l.async with
      remainingWords := l.async.remainingWords - l.budget c n,
      cyclesAccum := l.async.cyclesAccum + n - l.budget c n * c }, l.delayed⟩, l.budget c n, false⟩ := if_neg h

end

/-- `complete_transfer`, without its channel's `CHCR` -/
def latch (ch : Fin 7) (s : State Steady) : State Steady :=
  if irqFlagArmed s ch then
    raiseOnMasterEdge steadyBus s.dicr { s with dicr := s.dicr ||| (1#32 <<< (24 + ch.val)) }
  else s

def State.setLane (s : State Steady) (ch : Fin 7) (l : Lane) : State Steady :=
  { s with
    channels := Function.update s.channels ch l.chan
    async := Function.update s.async ch l.async
    delayed := Function.update s.delayed ch l.delayed }

def put (ch : Fin 7) (o : Outcome) (s : State Steady) : State Steady :=
  let s' := { s.setLane ch o.lane with
    env := s.env.take ch (s.channels ch).addrStep o.words (s.channels ch).startAddr }
  if o.done then latch ch s' else s'

def State.phase (s : State Steady) (ch : Fin 7) : Phase := (s.lane ch).phase s.env.ready (s.enabled ch) ch

def turn (n : Nat) (ch : Fin 7) (s : State Steady) : State Steady :=
  put ch ((s.lane ch).outcome n (s.phase ch)) s

/-- `DMA_MDEC_OUT_CYCLES_PER_WORD` on channel 1 -/
def cyclesPerWord (ch : Fin 7) : Nat := if ch = 1 then 14 else 1

/-- What the transfers and timers of reachable states have in common -/
structure Paced (ch : Fin 7) (a : Async) (d : Delayed) : Prop where
  transfer : a.active = true → (ch = 0 ∨ ch = 1 ∨ ch = 3) ∧ 0 < a.remainingWords ∧
    a.remainingWords ≤ dmaMaxTransferWords ∧ a.cyclesAccum < cyclesPerWord ch
  timer : d.active = true → (ch = 2 ∨ ch = 4) ∧ 0 < d.cyclesRemaining ∧ d.cyclesRemaining ≤ uint32Max

/-! ## 3. A slice is its turns -/

variable {l : Lane} {c : Nat} {p : Phase} {d : Bool}

section
variable {ch : Fin 7} {s : State Steady} {n : Nat}

theorem completeTransfer_eq (ch : Fin 7) (s : State Steady) : completeTransfer steadyBus ch s =
    latch ch (s.setChannel ch (s.channels ch).stop) := rfl

@[simp] theorem take_zero (ch : Fin 7) (step a : Word) : e.take ch step 0 a = e := by
  unfold Steady.take
  split_ifs
  · simp [feed, pop]
  · rfl

theorem turn_rest (h : s.phase ch = .rest) (n : Nat) : turn n ch s = s := by
  rw [turn, h]
  simp [outcome, put, setLane, lane]

theorem finish_eq (ch : Fin 7) (s : State Steady) :
    completeTransfer steadyBus ch (cancelAsyncTransfer ch s) =
      put ch ⟨⟨(s.channels ch).stop, {}, {}⟩, 0, true⟩ s := by
  rw [put, take_zero]
  rfl

theorem charge_of_lt {a : Async} {m : Nat} (h : (a.cyclesAccum + m) / c < a.remainingWords)
    (hc : 0 < c) (hle : a.remainingWords * c ≤ uint32Max) : a.charge m = a.cyclesAccum + m := by
  have := (Nat.div_lt_iff_lt_mul hc).mp h
  exact min_eq_left (by omega)

theorem budget_charge {a : Async} {m : Nat} (hc : 0 < c) (hle : a.remainingWords * c ≤ uint32Max) :
    min a.remainingWords (a.charge m / c) = min a.remainingWords ((a.cyclesAccum + m) / c) := by
  by_cases h : (a.cyclesAccum + m) / c < a.remainingWords
  · rw [charge_of_lt h hc hle]
  · have hall : a.remainingWords ≤ (a.cyclesAccum + m) / c := Nat.le_of_not_lt h
    have hcharge : a.remainingWords ≤ a.charge m / c := by
      rw [Nat.le_div_iff_mul_le hc] at hall ⊢
      exact le_min hall hle
    rw [min_eq_left hall, min_eq_left hcharge]

theorem advanceAsync_eq {ready : Steady → Bool} {move : Word → Steady → Steady}
    (hready : ∀ e, e.ready = s.env.ready → ready e = true)
    (hmove : ∀ a e, (move a e).ready = e.ready)
    (htake : ∀ n a, InRam a → (addresses (s.channels ch).addrStep n a).foldl (fun e a => move a e) s.env =
      s.env.take ch (s.channels ch).addrStep n a)
    (hp : Paced ch (s.async ch) (s.delayed ch)) (hact : (s.async ch).active = true)
    (hc : cyclesPerWord ch = c) (n : Nat) :
    advanceAsync steadyBus ready move c n ch s = put ch ((s.lane ch).outcome n (.moves c)) s := by
  obtain ⟨-, hpos, hmax, hlt⟩ := hp.transfer hact
  obtain ⟨hc0, hc14⟩ : 0 < c ∧ c ≤ 14 := by
    rw [← hc, cyclesPerWord]
    split_ifs <;> decide
  have hle : (s.async ch).remainingWords * c ≤ uint32Max := by
    have := Nat.mul_le_mul hmax hc14
    simp only [dmaMaxTransferWords, uint32Max] at this ⊢
    omega
  set k := (s.lane ch).budget c n with hk
  have hkle : k ≤ (s.async ch).remainingWords := Nat.min_le_left _ _
  have hwords : moveWords ready move (s.channels ch).addrStep
      (min (s.async ch).remainingWords ((s.async ch).charge n / c)) (s.channels ch).startAddr s.env =
      (k, addrAfter (s.channels ch).addrStep k (s.channels ch).startAddr,
        s.env.take ch (s.channels ch).addrStep k (s.channels ch).startAddr) := by
    rw [budget_charge hc0 hle, moveWords_eq_of_keeps (I := fun e => e.ready = s.env.ready) hready
      (fun a e he => (hmove a e).trans he) _ _ _ rfl, htake _ _ (inRam_startAddr _)]
    rfl
  have hcharge : k ≠ (s.async ch).remainingWords → (s.async ch).charge n = (s.async ch).cyclesAccum + n := by
    intro hne
    refine charge_of_lt ?_ hc0 hle
    simp only [hk, budget, lane] at hne
    omega
  rw [advanceAsync, hwords]
  by_cases hdone : k = (s.async ch).remainingWords
  · have hk0 : k ≠ 0 := by omega
    rw [outcome_done hdone, ← hk, if_neg hk0, if_pos (by omega), finish_eq]
    simp [put, setLane, lane, setMadr, setChannel, setAsync, advanced,
      hk0]
  · rw [outcome_going hdone, ← hk, hcharge hdone]
    by_cases hk0 : k = 0
    · rw [if_pos hk0]
      simp [put, setLane, lane, setAsync, advanced, hk0]
    · rw [if_neg hk0, if_neg (by omega)]
      simp [put, setLane, lane, setMadr, setChannel, setAsync, advanced,
        hk0]

theorem steady_writeWord_ready (ch : Fin 7) (a v : Word) :
    (steadyBus.writeWord e ch a v).ready = e.ready := by
  simp only [steadyBus]
  split <;> rfl

def staged (ready : Steady → Bool) (move : Word → Steady → Steady) (n : Nat) (ch : Fin 7)
    (s : State Steady) : Phase → State Steady
  | .rest | .timer => s
  | .wrongWay => completeTransfer steadyBus ch (cancelAsyncTransfer ch s)
  | .moves c => advanceAsync steadyBus ready move c n ch s

theorem phase_of_not_timed (h : ¬ (ch = 2 ∨ ch = 4)) : s.phase ch =
    if (s.async ch).active && (s.channels ch).busy && s.enabled ch then (s.channels ch).phase s.env.ready ch
    else .rest := if_neg h

theorem advanceMdec_in (n : Nat) (s : State Steady) : advanceMdecChannel steadyBus 0 n s =
    staged steadyBus.mdecWriteReady (fun a e => steadyBus.mdecWriteWord e (steadyBus.readWord e a)) n 0 s
      (s.phase 0) := by
  have hready : steadyBus.mdecWriteReady s.env = s.env.ready.mdecWrite := rfl
  rw [phase_of_not_timed (by decide), advanceMdecChannel, hready, Channel.phase]
  cases (s.async 0).active <;> cases (s.channels 0).busy <;> cases s.enabled 0 <;>
    cases (s.channels 0).direction <;> cases s.env.ready.mdecWrite <;> rfl

theorem advanceMdec_out (n : Nat) (s : State Steady) : advanceMdecChannel steadyBus 1 n s =
    staged steadyBus.mdecReadReady (fun a e => steadyBus.writeWord (e.pop 1 1) 1 a (e.data 1 0)) n 1 s
      (s.phase 1) := by
  have hready : steadyBus.mdecReadReady s.env = s.env.ready.mdecRead := rfl
  rw [phase_of_not_timed (by decide), advanceMdecChannel, hready, Channel.phase]
  cases (s.async 1).active <;> cases (s.channels 1).busy <;> cases s.enabled 1 <;>
    cases (s.channels 1).direction <;> cases s.env.ready.mdecRead <;> rfl

theorem advanceCdrom_eq (n : Nat) (s : State Steady) : advanceCdrom steadyBus n s =
    staged steadyBus.cdromReady (fun a e => steadyBus.writeWord (e.pop 3 1) 3 a (e.data 3 0)) n 3 s
      (s.phase 3) := by
  have hready : steadyBus.cdromReady s.env = s.env.ready.cdrom := rfl
  rw [phase_of_not_timed (by decide), advanceCdrom, cdromTransferActive, hready, Channel.phase]
  cases (s.async 3).active <;> cases (s.channels 3).busy <;> cases s.enabled 3 <;>
    cases (s.channels 3).direction <;> cases s.env.ready.cdrom <;> rfl

/-- The transfer is running: its channel is busy and enabled. -/
structure Runs (s : State Steady) (ch : Fin 7) : Prop where
  active : (s.async ch).active = true
  busy : (s.channels ch).busy = true
  enabled : s.enabled ch = true

/-- An MDEC transfer against the direction of its channel is running. -/
def WrongWay (s : State Steady) (ch : Fin 7) : Prop :=
  Runs s ch ∧ ((ch = 0 ∧ (s.channels ch).direction = false) ∨ (ch = 1 ∧ (s.channels ch).direction = true))

/-- The device of the channel is ready for the transfer. -/
def Served (s : State Steady) (ch : Fin 7) : Prop :=
  (ch = 0 ∧ (s.channels ch).direction = true ∧ s.env.ready.mdecWrite = true) ∨
    (ch = 1 ∧ (s.channels ch).direction = false ∧ s.env.ready.mdecRead = true) ∨
    (ch = 3 ∧ (s.channels ch).direction = false ∧ s.env.ready.cdrom = true)

theorem phase_eq_iff (hp : p = .wrongWay ∨ ∃ c, p = .moves c) :
    s.phase ch = p ↔ Runs s ch ∧ (s.channels ch).phase s.env.ready ch = p := by
  have hrest : p ≠ .rest ∧ p ≠ .timer := by
    rcases hp with rfl | ⟨c, rfl⟩ <;> exact ⟨nofun, nofun⟩
  by_cases hch : ch = 2 ∨ ch = 4
  · have hnone : (s.channels ch).phase s.env.ready ch = .rest := by
      rcases hch with rfl | rfl <;> rfl
    rw [hnone, State.phase, Lane.phase, if_pos hch]
    split_ifs
    · exact iff_of_false hrest.2.symm fun h => hrest.1 h.2.symm
    · exact iff_of_false hrest.1.symm fun h => hrest.1 h.2.symm
  · rw [phase_of_not_timed hch]
    split_ifs with hon
    · simp only [and_eq_true] at hon
      exact (and_iff_right ⟨hon.1.1, hon.1.2, hon.2⟩).symm
    · refine iff_of_false hrest.1.symm fun h => hon ?_
      simp [h.1.active, h.1.busy, h.1.enabled]

theorem phase_wrongWay_iff : s.phase ch = .wrongWay ↔ WrongWay s ch := by
  rw [phase_eq_iff (.inl rfl), WrongWay]
  refine and_congr_right fun _ => ?_
  match ch with
  | 0 | 1 | 3 => simp only [Channel.phase]; split_ifs <;> simp_all
  | 2 | 4 | 5 | 6 => simp [Channel.phase]

theorem phase_moves_iff :
    s.phase ch = .moves c ↔ Runs s ch ∧ Served s ch ∧ cyclesPerWord ch = c := by
  rw [phase_eq_iff (.inr ⟨c, rfl⟩), Served]
  refine and_congr_right fun _ => ?_
  match ch with
  | 0 | 1 | 3 => simp only [Channel.phase]; split_ifs <;> simp_all [cyclesPerWord]
  | 2 | 4 | 5 | 6 => simp [Channel.phase]

theorem lane_timer_iff {r : Ready} {en : Bool} :
    l.phase r en ch = .timer ↔ (ch = 2 ∨ ch = 4) ∧ l.delayed.active = true := by
  have hchan : l.chan.phase r ch ≠ .timer := by
    match ch with
    | 0 | 1 | 3 => simp only [Channel.phase]; split_ifs <;> simp
    | 2 | 4 | 5 | 6 => simp [Channel.phase]
  unfold Lane.phase
  split_ifs with hch hact hon
  · exact iff_of_true rfl ⟨hch, hact⟩
  · exact iff_of_false nofun fun h => hact h.2
  · exact iff_of_false hchan fun h => hch h.1
  · exact iff_of_false nofun fun h => hch h.1

theorem phase_timer_iff : s.phase ch = .timer ↔ (ch = 2 ∨ ch = 4) ∧ (s.delayed ch).active = true :=
  lane_timer_iff

theorem staged_eq {ready : Steady → Bool} {move : Word → Steady → Steady}
    (hready : ∀ e, e.ready = s.env.ready → Served s ch → ready e = true)
    (hmove : ∀ a e, (move a e).ready = e.ready)
    (htake : ∀ n a, InRam a → (addresses (s.channels ch).addrStep n a).foldl (fun e a => move a e) s.env =
      s.env.take ch (s.channels ch).addrStep n a)
    (hp : Paced ch (s.async ch) (s.delayed ch)) (hch : ¬ (ch = 2 ∨ ch = 4)) (n : Nat) :
    staged ready move n ch s (s.phase ch) = turn n ch s := by
  cases hphase : s.phase ch with
  | rest => exact (turn_rest hphase n).symm
  | wrongWay =>
    rw [staged, finish_eq, turn, hphase]
    rfl
  | moves c =>
    obtain ⟨hruns, hserved, hc⟩ := phase_moves_iff.mp hphase
    rw [staged, turn, hphase]
    exact advanceAsync_eq (fun e he => hready e he hserved) hmove htake hp hruns.active hc n
  | timer => exact absurd (phase_timer_iff.mp hphase).1 hch

theorem turn_delayed (hp : Paced ch (s.async ch) (s.delayed ch)) (n : Nat) :
    advanceDelayedComplete steadyBus n ch s = if ch = 2 ∨ ch = 4 then turn n ch s else s := by
  unfold advanceDelayedComplete
  cases hact : (s.delayed ch).active with
  | false =>
    have hphase : ch = 2 ∨ ch = 4 → s.phase ch = .rest := fun hch => by
      simp [State.phase, Lane.phase, lane, hch, hact]
    rw [if_pos (by rfl)]
    split_ifs with hch
    · exact (turn_rest (hphase hch) n).symm
    · rfl
  | true =>
    have hch := (hp.timer hact).1
    have hphase : s.phase ch = .timer := phase_timer_iff.mpr ⟨hch, hact⟩
    rw [if_neg (by simp), if_pos hch, turn, hphase, outcome]
    split_ifs with hlt hlt' hlt'
    · simp [put, setLane, lane, setDelayed, hact]
    · exact absurd hlt hlt'
    · exact absurd hlt' hlt
    · rw [completeTransfer_eq]
      simp [put, setLane, lane, setDelayed, setChannel]

def AllPaced {E : Type} (s : State E) : Prop := ∀ ch, Paced ch (s.async ch) (s.delayed ch)

def Steady.withIStat (e : Steady) (v : Word) : Steady := { e with iStat := v }

section
variable {c : Fin 7} (ch : Fin 7) (o : Outcome) (s : State Steady)

/-- Whether or not it raises the interrupt, a turn leaves everything else as `put` says. -/
theorem put_eq : ∃ dicr v, put ch o s =
    { s.setLane ch o.lane with
      dicr := dicr
      env := (s.env.take ch (s.channels ch).addrStep o.words (s.channels ch).startAddr).withIStat v } := by
  unfold put latch raiseOnMasterEdge
  dsimp only
  split_ifs <;> exact ⟨_, _, rfl⟩

theorem put_lane_self : (put ch o s).lane ch = o.lane := by
  obtain ⟨dicr, v, h⟩ := put_eq ch o s
  simp [h, lane, setLane]

variable {ch} in
theorem put_lane_of_ne (h : c ≠ ch) (o : Outcome) (s : State Steady) : (put ch o s).lane c = s.lane c := by
  obtain ⟨dicr, v, heq⟩ := put_eq ch o s
  simp [heq, lane, setLane, h]

theorem put_dpcr : (put ch o s).dpcr = s.dpcr := by
  obtain ⟨dicr, v, h⟩ := put_eq ch o s
  rw [h]
  rfl

theorem put_ready : (put ch o s).env.ready = s.env.ready := by
  obtain ⟨dicr, v, h⟩ := put_eq ch o s
  rw [h]
  unfold Steady.take
  split_ifs <;> rfl

theorem put_phase_self :
    (put ch o s).phase ch = o.lane.phase s.env.ready (s.enabled ch) ch := by
  rw [State.phase, put_lane_self, put_ready, enabled, put_dpcr]
  rfl

variable {ch} in
theorem put_phase_of_ne (h : c ≠ ch) (o : Outcome) (s : State Steady) : (put ch o s).phase c = s.phase c := by
  rw [State.phase, put_lane_of_ne h, put_ready, enabled, put_dpcr]
  rfl

end

theorem outcome_paced (hp : Paced ch l.async l.delayed)
    (hc : ∀ c, p = .moves c → l.async.active = true ∧ cyclesPerWord ch = c) (n : Nat) :
    Paced ch (l.outcome n p).lane.async (l.outcome n p).lane.delayed := by
  have hidle : Paced ch {} {} := ⟨nofun, nofun⟩
  cases p with
  | rest => exact hp
  | wrongWay => exact hidle
  | moves c =>
    obtain ⟨hact, hc⟩ := hc c rfl
    obtain ⟨hch, hpos, hmax, hlt⟩ := hp.transfer hact
    by_cases hdone : l.budget c n = l.async.remainingWords
    · rw [outcome_done hdone]
      exact hidle
    · rw [outcome_going hdone]
      have hle : l.budget c n ≤ l.async.remainingWords := Nat.min_le_left _ _
      refine ⟨fun _ => ⟨hch, ?_, ?_, ?_⟩, hp.timer⟩
      · dsimp only
        omega
      · dsimp only
        omega
      · -- what is left does not pay for another word
        have hbudget : l.budget c n = (l.async.cyclesAccum + n) / c := by
          simp only [budget] at hdone ⊢
          omega
        dsimp only
        rw [hbudget, hc, Nat.mul_comm, ← Nat.mod_eq_sub_mul_div]
        exact Nat.mod_lt _ (by omega)
  | timer =>
    rw [outcome]
    split_ifs with hlt
    · refine ⟨hp.transfer, fun hact => ?_⟩
      obtain ⟨hch, hpos, hmax⟩ := hp.timer hact
      dsimp only
      exact ⟨hch, by omega, by omega⟩
    · exact ⟨hp.transfer, nofun⟩

theorem AllPaced.turn (h : AllPaced s) (n : Nat) (ch : Fin 7) : AllPaced (turn n ch s) := by
  intro c
  have hlane : ∀ t : State Steady, Paced c (t.async c) (t.delayed c) ↔ Paced c (t.lane c).async (t.lane c).delayed :=
    fun _ => Iff.rfl
  rw [hlane]
  by_cases hc : c = ch
  · subst hc
    rw [Dma.turn, put_lane_self]
    refine outcome_paced (h c) (fun k hk => ?_) n
    obtain ⟨hruns, -, hcyc⟩ := phase_moves_iff.mp hk
    exact ⟨hruns.active, hcyc⟩
  · rw [Dma.turn, put_lane_of_ne hc]
    exact h c

/-- The channels that take turns, in the order of `dma_advance` -/
def turnOrder : List (Fin 7) := [0, 1, 3, 2, 4]

def turns (n : Nat) (l : List (Fin 7)) (s : State Steady) : State Steady :=
  l.foldl (fun s ch => turn n ch s) s

theorem AllPaced.turns (h : AllPaced s) (n : Nat) (l : List (Fin 7)) : AllPaced (turns n l s) := by
  induction l generalizing s with
  | nil => exact h
  | cons ch l ih => exact ih (h.turn n ch)

theorem advanceDelayed_turns (h : AllPaced s) (n : Nat) (l : List (Fin 7)) :
    advanceDelayed steadyBus n l s = turns n (l.filter fun ch => ch = 2 ∨ ch = 4) s := by
  induction l generalizing s with
  | nil => rfl
  | cons ch l ih =>
    rw [advanceDelayed, foldl_cons, turn_delayed (h ch)]
    by_cases hch : ch = 2 ∨ ch = 4
    · rw [if_pos hch, filter_cons_of_pos (by simpa using hch)]
      exact ih (h.turn n ch)
    · rw [if_neg hch, filter_cons_of_neg (by simpa using hch)]
      exact ih h

theorem stages_turns (h : AllPaced s) (n : Nat) :
    advanceCdrom steadyBus n (advanceMdecChannel steadyBus 1 n (advanceMdecChannel steadyBus 0 n s)) =
      turns n [0, 1, 3] s := by
  have hmove : ∀ ch a e, (steadyBus.writeWord (pop e ch 1) ch a (e.data ch 0)).ready = e.ready :=
    fun ch a e => steady_writeWord_ready ..
  have h₀ : advanceMdecChannel steadyBus 0 n s = turn n 0 s := by
    rw [advanceMdec_in]
    refine staged_eq (fun e he hs => ?_) (fun _ _ => rfl) (fun k a _ => foldl_fixed _) (h 0) (by decide) n
    simp_all [Served, steadyBus]
  have h₁ : advanceMdecChannel steadyBus 1 n (turn n 0 s) = turn n 1 (turn n 0 s) := by
    rw [advanceMdec_out]
    refine staged_eq (fun e he hs => ?_) (hmove 1) (fun k a ha => foldl_pop 1 ha k _) (h.turn n 0 1) (by decide) n
    simp_all [Served, steadyBus]
  rw [h₀, h₁, advanceCdrom_eq]
  refine staged_eq (fun e he hs => ?_) (hmove 3) (fun k a ha => foldl_pop 3 ha k _)
    (((h.turn n 0).turn n 1) 3) (by decide) n
  simp_all [Served, steadyBus]

/-- A slice is the turns of channels 0, 1, 3, 2 and 4, one after the other. -/
theorem dmaAdvance_turns (h : AllPaced s) {cycles : Word} (h0 : cycles ≠ 0#32) :
    dmaAdvance steadyBus cycles s = turns cycles.toNat turnOrder s := by
  rw [dmaAdvance_eq h0, stages_turns h, advanceDelayed_turns (h.turns _ _)]
  rfl

/-! ## 4. Turns commute -/

theorem state_ext {s t : State Steady} (hlane : ∀ c, s.lane c = t.lane c) (hdpcr : s.dpcr = t.dpcr)
    (hdicr : s.dicr = t.dicr) (henv : s.env = t.env) : s = t := by
  obtain ⟨channels, async, delayed, dpcr, dicr, env⟩ := s
  obtain ⟨channels', async', delayed', dpcr', dicr', env'⟩ := t
  obtain rfl : channels = channels' := funext fun c => congrArg chan (hlane c)
  obtain rfl : async = async' := funext fun c => congrArg Lane.async (hlane c)
  obtain rfl : delayed = delayed' := funext fun c => congrArg Lane.delayed (hlane c)
  cases hdpcr
  cases hdicr
  cases henv
  rfl

/-- `channel_irq_flag_armed` -/
def armed (v : Word) (ch : Fin 7) : Bool := v.getLsbD (16 + ch.val) && v.getLsbD 23

/-- `DICR` and `I_STAT` after a turn -/
def latched (ch : Fin 7) (done : Bool) (r : Word × Word) : Word × Word :=
  if done && armed r.1 ch then
    (r.1 ||| (1#32 <<< (24 + ch.val)), if dicrMasterFlag r.1 then r.2 else r.2 ||| 8#32)
  else r

theorem master_or_flag {v : Word} (h : armed v ch = true) :
    dicrMasterFlag (v ||| (1#32 <<< (24 + ch.val))) = true := by
  simp only [armed, and_eq_true] at h
  rw [Dicr.dicrMasterFlag_iff]
  refine .inr ⟨?_, ch, ?_⟩
  · rw [getLsbD_or, h.2, Bool.true_or]
  · have := ch.isLt
    simp
    omega

theorem armed_or_flag (v : Word) (ch c : Fin 7) : armed (v ||| (1#32 <<< (24 + c.val))) ch = armed v ch := by
  have h := ch.isLt
  have hlow : ∀ i < 24, (1#32 <<< (24 + c.val)).getLsbD i = false := by
    intro i hi
    rw [getLsbD_shiftLeft]
    simp
    omega
  rw [armed, armed, getLsbD_or, getLsbD_or, hlow (16 + ch.val) (by omega),
    hlow 23 (by omega), Bool.or_false, Bool.or_false]

theorem latched_pos (ch : Fin 7) {r : Word × Word} (h : (d && armed r.1 ch) = true) : latched ch d r =
    (r.1 ||| (1#32 <<< (24 + ch.val)), if dicrMasterFlag r.1 then r.2 else r.2 ||| 8#32) := if_pos h

theorem latched_neg (ch : Fin 7) {r : Word × Word} (h : ¬ (d && armed r.1 ch) = true) : latched ch d r = r :=
  if_neg h

theorem armed_latched (ch c : Fin 7) (d : Bool) (r : Word × Word) :
    armed (latched c d r).1 ch = armed r.1 ch := by
  by_cases h : (d && armed r.1 c) = true
  · rw [latched_pos c h]
    exact armed_or_flag ..
  · rw [latched_neg c h]

theorem latched_comm (ch c : Fin 7) (d d' : Bool) (r : Word × Word) :
    latched ch d (latched c d' r) = latched c d' (latched ch d r) := by
  by_cases h : (d && armed r.1 ch) = true
  · by_cases h' : (d' && armed r.1 c) = true
    · have hm := master_or_flag (and_eq_true_iff.mp h).2
      have hm' := master_or_flag (and_eq_true_iff.mp h').2
      rw [latched_pos ch (by rwa [armed_latched]), latched_pos c h', latched_pos c (by rwa [armed_latched]),
        latched_pos ch h]
      dsimp only
      rw [if_pos hm, if_pos hm', BitVec.or_assoc, BitVec.or_assoc, BitVec.or_comm (1#32 <<< _)]
    · rw [latched_neg c h', latched_neg c (by rwa [armed_latched])]
  · rw [latched_neg ch h, latched_neg ch (by rwa [armed_latched])]

theorem latch_latched (ch : Fin 7) (s : State Steady) :
    ((latch ch s).dicr, (latch ch s).env.iStat) = latched ch true (s.dicr, s.env.iStat) := by
  have harmed : irqFlagArmed s ch = armed s.dicr ch := rfl
  unfold latch
  rw [harmed]
  cases h : armed s.dicr ch with
  | false => rw [latched_neg ch (by simp [h])]; rfl
  | true =>
    rw [if_pos rfl, latched_pos ch (by simp [h]), Dicr.raiseOnMasterEdge_dicr, Dicr.raiseOnMasterEdge_env]
    dsimp only
    rw [master_or_flag h]
    cases dicrMasterFlag s.dicr <;> rfl

theorem put_latched (ch : Fin 7) (o : Outcome) (s : State Steady) :
    ((put ch o s).dicr, (put ch o s).env.iStat) = latched ch o.done (s.dicr, s.env.iStat) := by
  have htake : ∀ step n a, (s.env.take ch step n a).iStat = s.env.iStat := by
    intro step n a
    unfold Steady.take
    split_ifs <;> rfl
  unfold put
  dsimp only
  cases o.done with
  | false => rw [if_neg nofun, latched_neg ch (by simp), htake]; rfl
  | true =>
    rw [if_pos rfl, latch_latched, htake]
    rfl

theorem put_env (ch : Fin 7) (o : Outcome) (s : State Steady) : (put ch o s).env =
    (s.env.take ch (s.channels ch).addrStep o.words (s.channels ch).startAddr).withIStat
      (put ch o s).env.iStat := by
  obtain ⟨dicr, v, h⟩ := put_eq ch o s
  rw [h]
  rfl

theorem take_with_iStat (v : Word) (ch : Fin 7) (step : Word) (n : Nat) (a : Word) :
    (e.withIStat v).take ch step n a = (e.take ch step n a).withIStat v := by
  unfold Steady.take
  split_ifs <;> rfl

theorem channels_eq_lane (s : State Steady) (ch : Fin 7) : s.channels ch = (s.lane ch).chan := rfl

section
variable {c : Fin 7} {o o' : Outcome}

theorem put_put_env (hne : ch ≠ c) : (put ch o (put c o' s)).env =
    ((s.env.take c (s.channels c).addrStep o'.words (s.channels c).startAddr).take ch
      (s.channels ch).addrStep o.words (s.channels ch).startAddr).withIStat (put ch o (put c o' s)).env.iStat := by
  rw [put_env ch, channels_eq_lane (put c o' s), put_lane_of_ne hne, ← channels_eq_lane, put_env c (s := s),
    take_with_iStat]
  rfl

theorem put_comm (hne : ch ≠ c)
    (henv : (s.env.take c (s.channels c).addrStep o'.words (s.channels c).startAddr).take ch
        (s.channels ch).addrStep o.words (s.channels ch).startAddr =
      (s.env.take ch (s.channels ch).addrStep o.words (s.channels ch).startAddr).take c
        (s.channels c).addrStep o'.words (s.channels c).startAddr) :
    put ch o (put c o' s) = put c o' (put ch o s) := by
  have hlatched : ((put ch o (put c o' s)).dicr, (put ch o (put c o' s)).env.iStat) =
      ((put c o' (put ch o s)).dicr, (put c o' (put ch o s)).env.iStat) := by
    rw [put_latched, put_latched, put_latched, put_latched, latched_comm]
  refine state_ext (fun i => ?_) ?_ (congrArg Prod.fst hlatched) ?_
  · by_cases hi : i = ch
    · subst hi
      rw [put_lane_self, put_lane_of_ne hne, put_lane_self]
    · by_cases hi' : i = c
      · subst hi'
        rw [put_lane_of_ne hi, put_lane_self, put_lane_self]
      · rw [put_lane_of_ne hi, put_lane_of_ne hi', put_lane_of_ne hi', put_lane_of_ne hi]
  · rw [put_dpcr, put_dpcr, put_dpcr, put_dpcr]
  · rw [put_put_env hne, put_put_env (Ne.symm hne), henv]
    exact congrArg _ (congrArg Prod.snd hlatched)

def Stores (ch : Fin 7) : Prop := ch = 1 ∨ ch = 3

theorem take_of_stores (h : Stores ch) (e : Steady) (step : Word) (n : Nat) (a : Word) :
    e.take ch step n a = { e.pop ch n with ram := e.stored (feed step (e.data ch) n a) } := if_pos h

theorem take_of_not_stores (h : ¬ Stores ch) (e : Steady) (step : Word) (n : Nat) (a : Word) :
    e.take ch step n a = e := if_neg h

theorem turn_eq_put (hne : ch ≠ c) (n : Nat) :
    turn n ch (put c o s) = put ch ((s.lane ch).outcome n (s.phase ch)) (put c o s) := by
  rw [turn, put_lane_of_ne hne, put_phase_of_ne hne]

/-- Turns of different channels commute, unless both store in RAM: channels 1 and 3. -/
theorem turn_comm (hne : ch ≠ c) (hfree : ¬ (Stores ch ∧ Stores c)) (m n : Nat) (s : State Steady) :
    turn m ch (turn n c s) = turn n c (turn m ch s) := by
  rw [turn.eq_1 n c s, turn_eq_put hne, turn.eq_1 m ch s, turn_eq_put (Ne.symm hne)]
  refine put_comm hne ?_
  by_cases hch : Stores ch
  · have hc : ¬ Stores c := fun hc => hfree ⟨hch, hc⟩
    rw [take_of_not_stores hc, take_of_not_stores hc]
  · rw [take_of_not_stores hch, take_of_not_stores hch]

end

/-! ## 5. Turns add up -/

section
variable {l : Lane} {a b : Nat}

@[simp] theorem addrStep_advanced (c : Channel) (k : Nat) : (c.advanced k).addrStep = c.addrStep := by
  unfold advanced
  split_ifs <;> rfl

theorem startAddr_advanced (c : Channel) (k : Nat) :
    (c.advanced k).startAddr = addrAfter c.addrStep k c.startAddr := by
  unfold advanced
  split_ifs with hk
  · rw [hk]
    rfl
  · exact inRam_addrAfter (inRam_startAddr c) k

theorem advanced_of_ne {k : Nat} (hk : k ≠ 0) (c : Channel) :
    c.advanced k = { c with madr := addrAfter c.addrStep k c.startAddr } := if_neg hk

theorem advanced_advanced (c : Channel) (j k : Nat) : (c.advanced j).advanced k = c.advanced (j + k) := by
  by_cases hk : k = 0
  · subst hk
    exact if_pos rfl
  · rw [advanced_of_ne hk, advanced_of_ne (by omega : j + k ≠ 0), addrStep_advanced, startAddr_advanced,
      ← addrAfter_add, advanced]
    split_ifs <;> rfl

theorem budget_add {l' : Lane} {a b : Nat} (hc : 0 < c) (hgoing : l.budget c a ≠ l.async.remainingWords)
    (hrem : l'.async.remainingWords = l.async.remainingWords - l.budget c a)
    (hacc : l'.async.cyclesAccum = l.async.cyclesAccum + a - l.budget c a * c) :
    l.budget c (a + b) = l.budget c a + l'.budget c b := by
  have hk : l.budget c a = (l.async.cyclesAccum + a) / c := by
    simp only [budget] at hgoing ⊢
    omega
  have hle : l.budget c a * c ≤ l.async.cyclesAccum + a := by
    rw [hk]
    exact Nat.div_mul_le_self _ _
  have hlt : l.budget c a < l.async.remainingWords :=
    lt_of_le_of_ne (Nat.min_le_left _ _) hgoing
  have hsum : l.async.cyclesAccum + (a + b) = l'.async.cyclesAccum + b + l.budget c a * c := by omega
  rw [budget, hsum, Nat.add_mul_div_right _ _ hc, budget.eq_1 l', hrem]
  omega

theorem phase_idle (ha : l.async.active = false) (hd : l.delayed.active = false) (r : Ready)
    (en : Bool) : l.phase r en ch = .rest := by
  simp [Lane.phase, ha, hd]

theorem phase_congr {l' : Lane} (ha : l'.async.active = l.async.active)
    (hd : l'.delayed.active = l.delayed.active) (hc : l'.chan.chcr = l.chan.chcr) (r : Ready) (en : Bool) :
    l'.phase r en ch = l.phase r en ch := by
  have hdir : l'.chan.direction = l.chan.direction := by rw [direction, hc, direction]
  have hphase : l'.chan.phase r ch = l.chan.phase r ch := by
    simp [Channel.phase, hdir]
  rw [Lane.phase, Lane.phase, ha, hd, busy, hc, hphase]
  rfl

theorem chcr_advanced (c : Channel) (k : Nat) : (c.advanced k).chcr = c.chcr := by
  unfold advanced
  split_ifs <;> rfl

def Outcome.andThen (o o' : Outcome) : Outcome := ⟨o'.lane, o.words + o'.words, o.done || o'.done⟩

section
variable {l : Lane} {r : Ready} {en : Bool} {a b : Nat}

def Lane.second (l : Lane) (r : Ready) (en : Bool) (ch : Fin 7) (a b : Nat) : Outcome :=
  let l₁ := (l.outcome a (l.phase r en ch)).lane
  l₁.outcome b (l₁.phase r en ch)

theorem second_of_idle (l : Lane) (r : Ready) (en : Bool) (ch : Fin 7) (a : Nat)
    (ha : (l.outcome a (l.phase r en ch)).lane.async.active = false)
    (hd : (l.outcome a (l.phase r en ch)).lane.delayed.active = false) (b : Nat) :
    l.second r en ch a b = ⟨(l.outcome a (l.phase r en ch)).lane, 0, false⟩ := by
  rw [second, phase_idle ha hd]
  rfl

theorem outcome_add_moves (h : l.phase r en ch = .moves c) (hc : 0 < c) :
    l.outcome (a + b) (.moves c) = (l.outcome a (.moves c)).andThen (l.second r en ch a b) ∧
      ((l.outcome a (.moves c)).done = true → l.second r en ch a b = ⟨(l.outcome a (.moves c)).lane, 0, false⟩) := by
  by_cases hdone : l.budget c a = l.async.remainingWords
  · have hsecond := second_of_idle l r en ch a
      (by rw [h, outcome_done hdone]) (by rw [h, outcome_done hdone]) b
    have hmore : l.budget c (a + b) = l.async.remainingWords := by
      have hmono : (l.async.cyclesAccum + a) / c ≤ (l.async.cyclesAccum + (a + b)) / c :=
        Nat.div_le_div_right (by omega)
      simp only [budget] at hdone ⊢
      omega
    rw [h] at hsecond
    refine ⟨?_, fun _ => hsecond⟩
    rw [hsecond, outcome_done hdone, outcome_done hmore, hmore, hdone]
    rfl
  · have hgoing := outcome_going hdone
    have hphase : (l.outcome a (.moves c)).lane.phase r en ch = .moves c := by
      rw [← h]
      refine phase_congr ?_ ?_ ?_ r en <;> rw [h, hgoing]
      exact chcr_advanced ..
    have hsecond : l.second r en ch a b = (l.outcome a (.moves c)).lane.outcome b (.moves c) := by
      rw [second, h, hphase]
    set l₁ := (l.outcome a (.moves c)).lane with hl₁
    have hrem : l₁.async.remainingWords = l.async.remainingWords - l.budget c a := by rw [hl₁, hgoing]
    have hacc : l₁.async.cyclesAccum = l.async.cyclesAccum + a - l.budget c a * c := by rw [hl₁, hgoing]
    have hchan : l₁.chan = l.chan.advanced (l.budget c a) := by rw [hl₁, hgoing]
    have hadd := budget_add (b := b) hc hdone hrem hacc
    have hle : l.budget c a ≤ l.async.remainingWords := Nat.min_le_left _ _
    have hwords : (l.outcome a (.moves c)).words = l.budget c a := by rw [hgoing]
    have hnot : (l.outcome a (.moves c)).done = false := by rw [hgoing]
    refine ⟨?_, fun hd => by rw [hnot] at hd; cases hd⟩
    rw [Outcome.andThen, hwords, hnot, hsecond, Bool.false_or]
    by_cases hlast : l₁.budget c b = l₁.async.remainingWords
    · rw [outcome_done hlast, outcome_done (by omega), hadd, hchan, advanced_advanced]
    · have hkept : l₁.async.active = l.async.active ∧ l₁.async.totalWords = l.async.totalWords ∧
          l₁.delayed = l.delayed := by
        rw [hl₁, hgoing]
        exact ⟨rfl, rfl, rfl⟩
      have hpaid : l.budget c a * c ≤ l.async.cyclesAccum + a :=
        (Nat.mul_le_mul_right c (Nat.min_le_right _ _)).trans (Nat.div_mul_le_self _ _)
      have hleft : l.async.cyclesAccum + (a + b) - (l.budget c a + l₁.budget c b) * c =
          l.async.cyclesAccum + a - l.budget c a * c + b - l₁.budget c b * c := by
        rw [Nat.add_mul]
        omega
      rw [outcome_going hlast, outcome_going (by omega), hadd, hchan, advanced_advanced, hrem, hacc]
      dsimp only
      rw [hkept.1, hkept.2.1, hkept.2.2, hleft, Nat.sub_sub]

theorem outcome_add (r : Ready) (en : Bool) (a b : Nat) (hp : Paced ch l.async l.delayed)
    (hen : ∀ c, l.phase r en ch = .moves c → 0 < c) :
    l.outcome (a + b) (l.phase r en ch) =
        (l.outcome a (l.phase r en ch)).andThen (l.second r en ch a b) ∧
      ((l.outcome a (l.phase r en ch)).done = true →
        l.second r en ch a b = ⟨(l.outcome a (l.phase r en ch)).lane, 0, false⟩) := by
  cases h : l.phase r en ch with
  | rest =>
    have hsecond : l.second r en ch a b = ⟨l, 0, false⟩ := by
      rw [second, h]
      simp only [outcome]
      rw [h]
    rw [hsecond]
    exact ⟨rfl, nofun⟩
  | wrongWay =>
    have hsecond := second_of_idle l r en ch a (by rw [h]; rfl)
      (by rw [h]; rfl) b
    rw [h] at hsecond
    rw [hsecond]
    exact ⟨rfl, fun _ => rfl⟩
  | moves c => exact outcome_add_moves h (hen c h)
  | timer =>
    by_cases hlt : a < l.delayed.cyclesRemaining
    · have hout : l.outcome a .timer = ⟨{ l with delayed :=
          { l.delayed with cyclesRemaining := l.delayed.cyclesRemaining - a } }, 0, false⟩ := if_pos hlt
      have hphase : (l.outcome a .timer).lane.phase r en ch = .timer := by
        rw [← h]
        refine phase_congr ?_ ?_ ?_ r en <;> rw [h, hout]
      have hsecond : l.second r en ch a b = (l.outcome a .timer).lane.outcome b .timer := by
        rw [second, h, hphase]
      rw [hsecond, hout]
      refine ⟨?_, nofun⟩
      simp only [outcome]
      by_cases hlt' : a + b < l.delayed.cyclesRemaining
      · rw [if_pos hlt', if_pos (by omega), Outcome.andThen, Nat.sub_sub]
        rfl
      · rw [if_neg hlt', if_neg (by omega)]
        rfl
    · have hout : l.outcome a .timer = ⟨⟨l.chan.stop, l.async, {}⟩, 0, true⟩ := if_neg hlt
      have hlast : l.outcome (a + b) .timer = ⟨⟨l.chan.stop, l.async, {}⟩, 0, true⟩ := if_neg (by omega)
      -- a channel with a timer has no other transfer
      have hidle : l.async.active = false := by
        refine eq_false_iff.mpr fun hact => ?_
        have hch := (hp.transfer hact).1
        rcases (lane_timer_iff.mp h).1 with rfl | rfl <;> simp at hch
      have hsecond := second_of_idle l r en ch a
        (by rw [h, hout]; exact hidle) (by rw [h, hout]) b
      rw [h, hout] at hsecond
      rw [hsecond, hlast, hout]
      exact ⟨rfl, fun _ => rfl⟩

end

section
variable {o o' : Outcome} {step : Word}

theorem take_take (ch : Fin 7) (step : Word) (m n : Nat) (x : Word) :
    (e.take ch step m x).take ch step n (addrAfter step m x) = e.take ch step (m + n) x := by
  by_cases h : Stores ch
  · rw [take_of_stores h, take_of_stores h, take_of_stores h, pop_with_ram, pop_pop, feed_append,
      ← stored_stored, ← pop_data]
    rfl
  · rw [take_of_not_stores h, take_of_not_stores h, take_of_not_stores h]

theorem latched_latched {d' : Bool} (h : d = true → d' = false) (p : Word × Word) :
    latched ch d' (latched ch d p) = latched ch (d || d') p := by
  cases d with
  | false => rw [latched_neg ch (d := false) (by simp), Bool.false_or]
  | true => rw [h rfl, latched_neg ch (d := false) (by simp), Bool.or_false]

theorem put_put (hd : o.done = true → o'.done = false) (hw : o'.words ≠ 0 →
    o.lane.chan.addrStep = (s.channels ch).addrStep ∧
      o.lane.chan.startAddr = addrAfter (s.channels ch).addrStep o.words (s.channels ch).startAddr) :
    put ch o' (put ch o s) = put ch (o.andThen o') s := by
  have hlatched : ((put ch o' (put ch o s)).dicr, (put ch o' (put ch o s)).env.iStat) =
      ((put ch (o.andThen o') s).dicr, (put ch (o.andThen o') s).env.iStat) := by
    rw [put_latched, put_latched, put_latched, latched_latched hd]
    rfl
  refine state_ext (fun c => ?_) ?_ (congrArg Prod.fst hlatched) ?_
  · by_cases hc : c = ch
    · subst hc
      rw [put_lane_self, put_lane_self]
      rfl
    · rw [put_lane_of_ne hc, put_lane_of_ne hc, put_lane_of_ne hc]
  · rw [put_dpcr, put_dpcr, put_dpcr]
  · have htake : (s.env.take ch (s.channels ch).addrStep o.words (s.channels ch).startAddr).take ch
        o.lane.chan.addrStep o'.words o.lane.chan.startAddr =
        s.env.take ch (s.channels ch).addrStep (o.andThen o').words (s.channels ch).startAddr := by
      by_cases h0 : o'.words = 0
      · rw [h0, take_zero, Outcome.andThen, h0]
        rfl
      · rw [(hw h0).1, (hw h0).2, take_take]
        rfl
    rw [put_env ch o', put_env ch (o.andThen o'), put_env ch o, take_with_iStat, channels_eq_lane (put ch o s),
      put_lane_self, htake]
    exact congrArg (withIStat _) (congrArg Prod.snd hlatched)

theorem outcome_chan {n : Nat} (h : (l.outcome n p).done = false) :
    (l.outcome n p).lane.chan = l.chan.advanced (l.outcome n p).words := by
  cases p with
  | rest => rfl
  | wrongWay => cases h
  | moves c =>
    by_cases hdone : l.budget c n = l.async.remainingWords
    · rw [outcome_done hdone] at h
      cases h
    · rw [outcome_going hdone]
  | timer =>
    unfold outcome at h ⊢
    split_ifs at h ⊢ with hlt
    rfl

/-- A turn of `a` and then of `b` cycles is a turn of `a + b`. -/
theorem turn_turn (hp : Paced ch (s.async ch) (s.delayed ch)) (a b : Nat) :
    turn b ch (turn a ch s) = turn (a + b) ch s := by
  obtain ⟨hadd, hrest⟩ := outcome_add s.env.ready (s.enabled ch) a b hp fun c h => by
    obtain ⟨-, -, rfl⟩ := phase_moves_iff.mp (h : s.phase ch = .moves c)
    unfold cyclesPerWord
    split_ifs <;> decide
  have hsecond : turn b ch (turn a ch s) = put ch ((s.lane ch).second s.env.ready (s.enabled ch) ch a b)
      (put ch ((s.lane ch).outcome a (s.phase ch)) s) := by
    rw [turn, turn, put_lane_self, put_phase_self]
    rfl
  rw [hsecond, turn, put_put]
  · exact congrArg (put ch · s) hadd.symm
  · intro hdone
    rw [hrest hdone]
  · intro hwords
    have hgoing : ((s.lane ch).outcome a (s.phase ch)).done = false := by
      refine eq_false_iff.mpr fun hdone => hwords ?_
      rw [hrest hdone]
    rw [outcome_chan hgoing, addrStep_advanced, startAddr_advanced]
    exact ⟨rfl, rfl⟩

end

end

end

end PsxRecomp.Dma
