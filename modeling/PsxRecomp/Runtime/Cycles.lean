import Mathlib.Data.BitVec
import PsxRecomp.Lib.Timed
import PsxRecomp.Machine.Cpu

/-!
# `Runtime/Cycles.lean` — the guest clock and its event deadline

`runtime/src/psx_cycles.c`: every instruction charges cycles, and the devices are advanced only when the
charges reach the next event, or when the guest touches a device register. Then the clock is taken back
to where the devices are and the gap is played in slices that end at events (`serviceToNow`).
`advanceCyclesExact` is the path this replaces, with every charge in single cycles. The devices are any
ensemble on one clock (`Timed.Ensemble`) with the distances the scheduler asks them for.

Device callbacks charge no cycles (so the re-entrancy guard is never up), and lockstep replay is off.
-/

set_option autoImplicit false

open Function

namespace PsxRecomp.Cycles

open Timed

/-! ## 1. Devices -/

inductive Device where
  | sio
  | cdrom
  | dma
  | timers
  | vblank
  deriving DecidableEq

/-- The order of the calls in `advance_devices`. -/
def deviceOrder : List Device := [.sio, .cdrom, .dma, .timers, .vblank]

/-- `uint64_t` -/
abbrev Clock : Type := BitVec 64

/-- The devices with their `*_cycles_to_irq`, and `interrupts_service_scheduled_events`. -/
structure Devices (S : Type) extends Ensemble Clock Device S where
  distance : Device → S → Nat
  service : World Clock Device S → World Clock Device S

structure DeviceLaws {S : Type} (M : Devices S) : Prop extends Laws M.toEnsemble where
  order_eq : M.order = deviceOrder
  /-- a distance is a lower bound on the next event -/
  distance_le : ∀ i s c, c < M.distance i s → M.quiet i c s = true
  service_clock : ∀ w, (M.service w).clock = w.clock
  service_service : ∀ w, M.service (M.service w) = M.service w
  /-- `interrupts_advance_cycles`, the last call of a slice, ends with it -/
  service_slice : ∀ c w, 0 < c → M.service (M.slice c w) = M.slice c w

section
variable {S : Type} (M : Devices S)

/-- `devices_cycles_to_next_internal_event` -/
def nextEvent (x : Device → S) : Nat :=
  let best := min (M.distance .vblank (x .vblank)) (min (M.distance .timers (x .timers))
    (min (M.distance .cdrom (x .cdrom)) (min (M.distance .dma (x .dma)) (M.distance .sio (x .sio)))))
  if best = 0 then 1 else best

/-! ## 2. The clock -/

/-- `psx_cycle_count`, `s_devices_synced_cycle` and `s_next_service_cycle` (0: to be recomputed), and
the devices with their log of events. `delivered` counts the cycles handed to `advance_devices`. -/
structure State (S : Type) where
  count : Clock
  synced : Clock
  deadline : Clock
  dev : Device → S
  log : List (Clock × Device)
  delivered : Nat

def State.world {S : Type} (s : State S) : World Clock Device S := ⟨s.synced, s.dev, s.log⟩

def init {S : Type} (x : Device → S) : State S := ⟨0, 0, 0, x, [], 0⟩

/-- `PSX_DEADLINE_HARD_CAP` -/
def hardCap : Nat := 16384

/-- The loop of `psx_devices_service_to_now`, for at most so many turns. Takes and returns the devices
and the cycles delivered to them. -/
def replay (target : Clock) : Nat → World Clock Device S × Nat → World Clock Device S × Nat
  | 0, r => r
  | fuel + 1, r =>
    if r.1.clock < target then
      let remaining := ((target - r.1.clock).setWidth 32).toNat
      let toEv := nextEvent M r.1.dev
      let bounded := if 0 < toEv ∧ toEv < remaining then toEv else remaining
      let step := if bounded = 0 then 1 else bounded
      replay target fuel (M.service (M.slice step r.1), r.2 + step)
    else r

/-- `psx_devices_recompute_deadline` -/
def recomputeDeadline (s : State S) : State S :=
  { s with deadline := s.count + (min (nextEvent M s.dev) hardCap : Nat) }

/-- `psx_devices_service_to_now` -/
def serviceToNow (s : State S) : State S :=
  let target := s.count
  let s :=
    if s.synced < target then
      let w := M.service ⟨s.synced, s.dev, s.log⟩
      let r := replay M target (target - s.synced).toNat (w, s.delivered)
      { s with count := r.1.clock, synced := target, dev := r.1.dev, log := r.1.log,
               delivered := r.2 }
    else s
  recomputeDeadline M s

/-- `psx_devices_mmio_sync` -/
def mmioSync (s : State S) : State S :=
  { (if s.synced ≠ s.count then serviceToNow M s else s) with deadline := 0 }

/-- `psx_advance_cycles` -/
def advanceCycles (cycles : Word) (s : State S) : State S :=
  if cycles = 0#32 then s
  else
    let s := { s with count := s.count + cycles.setWidth 64 }
    if s.deadline = 0 ∨ s.deadline ≤ s.count then serviceToNow M s else s

/-- `psx_advance_cycles_exact` with `g_event_step_conservative` -/
def advanceCyclesExact (cycles : Word) (s : State S) : State S :=
  if cycles = 0#32 then s
  else
    let w := M.service ⟨s.count, s.dev, s.log⟩
    let w := (fun w => M.service (M.slice 1 w))^[cycles.toNat] w
    { s with count := w.clock, synced := w.clock, deadline := 0, dev := w.dev, log := w.log,
             delivered := s.delivered + cycles.toNat }

/-! ## 3. Runs -/

/-- A charge, or an access to a device register: the handler may read the clock, and does what it
does to the devices. -/
inductive Op (S : Type) where
  | charge (cycles : Word)
  | mmio (handler : Clock → (Device → S) → Device → S)

/-- The cycles a run charges. -/
def charged {S : Type} : List (Op S) → Nat
  | [] => 0
  | .charge cycles :: ops => cycles.toNat + charged ops
  | .mmio _ :: ops => charged ops

/-- What the guest can see at an access: the devices, their events up to now, and how many cycles
they have been given. -/
structure Seen (S : Type) where
  world : World Clock Device S
  delivered : Nat

/-- One operation, with a way to charge cycles and a way to bring the devices up to date. -/
def step (charge : Word → State S → State S) (sync : State S → State S) :
    Op S → State S → State S × List (Seen S)
  | .charge cycles, s => (charge cycles s, [])
  | .mmio handler, s =>
    let s := sync s
    ({ s with dev := handler s.count s.dev }, [⟨⟨s.count, s.dev, s.log⟩, s.delivered⟩])

def run (f : Op S → State S → State S × List (Seen S)) :
    List (Op S) → State S → State S × List (Seen S)
  | [], s => (s, [])
  | op :: ops, s =>
    let r := run f ops (f op s).1
    (r.1, (f op s).2 ++ r.2)

def runDeadline : List (Op S) → State S → State S × List (Seen S) :=
  run (step (advanceCycles M) (mmioSync M))

def runExact : List (Op S) → State S → State S × List (Seen S) :=
  run (step (advanceCyclesExact M) id)

structure Transparent (x : Device → S) (ops : List (Op S)) : Prop where
  /-- every access sees the same devices -/
  seen : (runDeadline M ops (init x)).2 = (runExact M ops (init x)).2
  /-- the same events have happened, at the same cycles -/
  log : (runDeadline M ops (init x)).1.log = (runExact M ops (init x)).1.log
  /-- at every access the devices have been given the cycles of the guest -/
  delivered : ∀ o ∈ (runDeadline M ops (init x)).2, o.delivered = o.world.clock.toNat
  /-- no event is due at a cycle that has been charged -/
  onTime : M.AllQuiet ((runDeadline M ops (init x)).1.count - (runDeadline M ops (init x)).1.synced).toNat
    (runDeadline M ops (init x)).1.dev

end

/-! ## 4. A gap, played in slices -/

section
variable {S : Type} {M : Devices S}

theorem nextEvent_pos (x : Device → S) : 0 < nextEvent M x := by
  unfold nextEvent
  dsimp only
  split <;> omega

theorem allQuiet_of_lt (hM : DeviceLaws M) {x : Device → S} {c : Nat} (h : c < nextEvent M x) :
    M.AllQuiet c x := by
  intro i _
  by_cases h0 : c = 0
  · rw [h0]
    exact hM.quiet_zero i _
  · apply hM.distance_le
    unfold nextEvent at h
    dsimp only at h
    split at h
    · omega
    · cases i <;> omega

theorem toNat_add_cast {a : Clock} {n : Nat} (h : a.toNat + n < 2 ^ 64) :
    (a + (n : Clock)).toNat = a.toNat + n := by
  rw [BitVec.natCast_eq_ofNat, BitVec.toNat_add, BitVec.toNat_ofNat]
  omega

theorem clock_iterate (n : Nat) (w : World Clock Device S) :
    ((M.slice 1)^[n] w).clock = w.clock + (n : Clock) := by
  induction n with
  | zero => simp
  | succ n ih =>
    rw [iterate_succ_apply', Ensemble.slice, ih, Nat.cast_add, add_assoc]

theorem service_iterate (hM : DeviceLaws M) {n : Nat} (hn : 0 < n) (w : World Clock Device S) :
    M.service ((M.slice 1)^[n] w) = (M.slice 1)^[n] w := by
  obtain ⟨k, rfl⟩ : ∃ k, n = k + 1 := ⟨n - 1, by omega⟩
  rw [iterate_succ_apply']
  exact hM.service_slice 1 _ Nat.one_pos

variable (hM : DeviceLaws M) (hb : deviceOrder.Pairwise (Blind M.toEnsemble))
include hM

theorem iterate_service_slice (n : Nat) (w : World Clock Device S) :
    (fun w => M.service (M.slice 1 w))^[n] w = (M.slice 1)^[n] w := by
  have heq : (fun w => M.service (M.slice 1 w)) = M.slice 1 :=
    funext fun w => hM.service_slice 1 w Nat.one_pos
  rw [heq]

include hb

theorem slice_eq_units {w : World Clock Device S} {n : Nat} (h0 : 0 < n) (h : n ≤ nextEvent M w.dev) :
    M.slice n w = (M.slice 1)^[n] w := by
  obtain ⟨c, rfl⟩ : ∃ c, n = c + 1 := ⟨n - 1, by omega⟩
  refine slice_eq_iterate hM.toLaws ?_ (allQuiet_of_lt hM (by omega))
  rw [hM.order_eq]
  exact hb

/-- What is left to play, in single cycles. No slice passes the target, so the counter does not wrap. -/
theorem replay_eq {target : Clock} {fuel : Nat} {w : World Clock Device S}
    (hfuel : target.toNat - w.clock.toNat ≤ fuel) (d : Nat) : replay M target fuel (w, d) =
      ((M.slice 1)^[target.toNat - w.clock.toNat] w, d + (target.toNat - w.clock.toNat)) := by
  induction fuel generalizing w d with
  | zero =>
    rw [Nat.le_zero.mp hfuel]
    rfl
  | succ fuel ih =>
    unfold replay
    split
    next hlt =>
      extract_lets remaining toEv bounded n
      dsimp only at hlt
      have hgap : (target - w.clock).toNat = target.toNat - w.clock.toNat :=
        BitVec.toNat_sub_of_le (BitVec.le_of_lt hlt)
      rw [BitVec.lt_def] at hlt
      -- the slice is at least one cycle, and reaches neither past the target nor past an event
      obtain ⟨hn0, hnev, hnt⟩ :
          0 < n ∧ n ≤ nextEvent M w.dev ∧ n ≤ target.toNat - w.clock.toNat := by
        have hev : 0 < toEv := nextEvent_pos w.dev
        have hmod : remaining ≤ target.toNat - w.clock.toNat := by
          rw [← hgap]
          exact (BitVec.toNat_setWidth ..).trans_le (Nat.mod_le _ _)
        change 0 < n ∧ n ≤ toEv ∧ n ≤ target.toNat - w.clock.toNat
        unfold n bounded
        split_ifs <;> omega
      have hclock : (M.slice n w).clock.toNat = w.clock.toNat + n := toNat_add_cast (by omega)
      rw [hM.service_slice n w hn0, ih (by omega), hclock,
        slice_eq_units hM hb hn0 hnev, ← iterate_add_apply]
      have hsum : target.toNat - (w.clock.toNat + n) + n = target.toNat - w.clock.toNat := by omega
      have hsum' : d + n + (target.toNat - (w.clock.toNat + n)) =
        d + (target.toNat - w.clock.toNat) := by omega
      rw [hsum, hsum']
    next hge =>
      have hzero : target.toNat - w.clock.toNat = 0 := Nat.sub_eq_zero_of_le (not_lt.mp hge)
      rw [hzero]
      rfl

theorem serviceToNow_eq {s : State S} (hlt : s.synced < s.count) :
    let w := (M.slice 1)^[s.count.toNat - s.synced.toNat] (M.service s.world)
    serviceToNow M s = ⟨s.count, s.count, s.count + (min (nextEvent M w.dev) hardCap : Nat), w.dev, w.log,
      s.delivered + (s.count.toNat - s.synced.toNat)⟩ := by
  have hclock : (M.service s.world).clock = s.synced := hM.service_clock _
  have hgap : (s.count - s.synced).toNat = s.count.toNat - s.synced.toNat :=
    BitVec.toNat_sub_of_le (BitVec.le_of_lt hlt)
  have hreplay : replay M s.count (s.count - s.synced).toNat (M.service s.world, s.delivered) = _ :=
    replay_eq hM hb (by rw [hclock, hgap]) s.delivered
  have hend := clock_iterate (M := M) (s.count.toNat - s.synced.toNat) (M.service s.world)
  have hcount : s.synced + ((s.count.toNat - s.synced.toNat : Nat) : Clock) = s.count := by
    rw [BitVec.lt_def] at hlt
    apply BitVec.eq_of_toNat_eq
    rw [toNat_add_cast (by omega)]
    omega
  rw [hclock] at hreplay
  rw [hclock, hcount] at hend
  simp only [State.world] at hreplay hend ⊢
  simp only [serviceToNow, if_pos hlt, hreplay, recomputeDeadline, hend]

end

/-! ## 5. The two paths -/

section
variable {S : Type} {M : Devices S}

/-- The deadline path's state against the exact one: the devices of the exact path are those of the
deadline path after the cycles that have not been delivered yet, and no event lies among these. A
deadline that is not ahead (0, or one that has wrapped around) makes the next charge service. -/
structure Matches (M : Devices S) (f r : State S) : Prop where
  count : r.count = f.count
  current : r.synced = r.count
  behind : f.synced.toNat ≤ f.count.toNat
  delivered : f.delivered = f.synced.toNat
  delivered' : r.delivered = r.count.toNat
  world : r.world = (M.slice 1)^[f.count.toNat - f.synced.toNat] f.world
  dirty : f.deadline.toNat ≤ f.count.toNat → f.synced = f.count
  clean : f.count.toNat < f.deadline.toNat → M.service f.world = f.world ∧
    M.AllQuiet (f.deadline.toNat - 1 - f.synced.toNat) f.dev

theorem matches_init (x : Device → S) : Matches M (init x) (init x) where
  count := rfl
  current := rfl
  behind := le_rfl
  delivered := rfl
  delivered' := rfl
  world := rfl
  dirty _ := rfl
  clean h := absurd h (Nat.lt_irrefl _)

variable (hM : DeviceLaws M) (hb : deviceOrder.Pairwise (Blind M.toEnsemble))
include hM

theorem Matches.onTime {f r : State S} (h : Matches M f r) :
    M.AllQuiet (f.count - f.synced).toNat f.dev := by
  rw [BitVec.toNat_sub_of_le h.behind]
  rcases Nat.lt_or_ge f.count.toNat f.deadline.toNat with hlt | hle
  · exact AllQuiet.mono hM.toLaws (by omega) (h.clean hlt).2
  · rw [h.dirty hle, Nat.sub_self]
    exact fun i _ => hM.quiet_zero i _

theorem Matches.log {f r : State S} (h : Matches M f r) : f.log = r.log := by
  have hw := h.world
  have hq := Matches.onTime hM h
  rw [BitVec.toNat_sub_of_le h.behind] at hq
  rw [iterate_slice_eq_drift hM.toLaws hq] at hw
  exact (congrArg World.log hw).symm

include hb

theorem Matches.serviced {f r : State S} (hcount : r.count = f.count) (hcur : r.synced = r.count)
    (hdel : f.delivered = f.synced.toNat) (hdel' : r.delivered = r.count.toNat)
    (hlt : f.synced.toNat < f.count.toNat)
    (hw : r.world = (M.slice 1)^[f.count.toNat - f.synced.toNat] (M.service f.world)) :
    Matches M (serviceToNow M f) r ∧ (serviceToNow M f).count = f.count ∧
      (serviceToNow M f).synced = f.count ∧ (serviceToNow M f).world = r.world := by
  have heq := serviceToNow_eq hM hb hlt
  rw [← hw] at heq
  have hworld : (serviceToNow M f).world = r.world := by
    rw [heq]
    simp [State.world, hcur, hcount]
  have hev := nextEvent_pos (M := M) r.dev
  refine ⟨?_, by rw [heq], by rw [heq], hworld⟩
  constructor
  · rw [heq, hcount]
  · exact hcur
  · rw [heq]
  · rw [heq, hdel]
    dsimp only
    omega
  · exact hdel'
  · rw [← hworld, heq]
    simp
  · rw [heq]
    intro _
    rfl
  · intro hahead
    refine ⟨?_, ?_⟩
    · rw [hworld, hw]
      exact service_iterate hM (by omega) _
    · rw [heq] at hahead ⊢
      refine allQuiet_of_lt hM ?_
      simp only [hardCap, State.world, BitVec.natCast_eq_ofNat, BitVec.toNat_add,
        BitVec.toNat_ofNat] at hahead ⊢
      omega

omit hb in
theorem Matches.service_world {f r : State S} (h : Matches M f r) :
    M.service r.world = (M.slice 1)^[f.count.toNat - f.synced.toNat] (M.service f.world) := by
  rw [h.world]
  rcases Nat.eq_zero_or_pos (f.count.toNat - f.synced.toNat) with hgap | hgap
  · rw [hgap]
    rfl
  · have hclean := h.clean (Nat.lt_of_not_le fun hle => by
      rw [h.dirty hle] at hgap
      omega)
    rw [service_iterate hM hgap, hclean.1]

omit hb in
theorem advanceCyclesExact_eq {r : State S} {cycles : Word} (hcur : r.synced = r.count)
    (h0 : cycles ≠ 0#32) : ∃ r', advanceCyclesExact M cycles r = r' ∧
      r'.count = r.count + (cycles.toNat : Clock) ∧ r'.synced = r'.count ∧
      r'.delivered = r.delivered + cycles.toNat ∧
      r'.world = (M.slice 1)^[cycles.toNat] (M.service r.world) := by
  have hclock := clock_iterate (M := M) cycles.toNat (M.service r.world)
  rw [hM.service_clock] at hclock
  refine ⟨_, rfl, ?_⟩
  rw [advanceCyclesExact, if_neg h0]
  simp only [iterate_service_slice hM, ← hcur]
  exact ⟨hclock, trivial, trivial, rfl⟩

theorem Matches.charge {f r : State S} (h : Matches M f r) {cycles : Word}
    (hwrap : f.count.toNat + cycles.toNat < 2 ^ 64) :
    Matches M (advanceCycles M cycles f) (advanceCyclesExact M cycles r) ∧
      (advanceCycles M cycles f).count.toNat = f.count.toNat + cycles.toNat := by
  by_cases h0 : cycles = 0#32
  · rw [advanceCycles, if_pos h0, advanceCyclesExact, if_pos h0, h0]
    exact ⟨h, rfl⟩
  have hn : 0 < cycles.toNat := by
    rw [Nat.pos_iff_ne_zero]
    exact fun hz => h0 (BitVec.eq_of_toNat_eq hz)
  have hbehind := h.behind
  obtain ⟨r', hr', hcount, hcur, hdel, hworld⟩ := advanceCyclesExact_eq hM h.current h0
  have hcast : cycles.setWidth 64 = (cycles.toNat : Clock) := by
    rw [BitVec.natCast_eq_ofNat, BitVec.ofNat_toNat]
  have hnat := toNat_add_cast hwrap
  rw [hr', advanceCycles, if_neg h0, hcast]
  rw [h.count] at hcount
  -- the devices of the exact path, from where those of the deadline path are
  have hgap : (f.count + (cycles.toNat : Clock)).toNat - f.synced.toNat =
      cycles.toNat + (f.count.toNat - f.synced.toNat) := by omega
  rw [Matches.service_world hM h, ← iterate_add_apply, ← hgap] at hworld
  have hdel' : r'.delivered = r'.count.toNat := by rw [hdel, h.delivered', hcount, h.count, hnat]
  dsimp only
  split
  · obtain ⟨hm, hc, -, -⟩ :=
      Matches.serviced hM hb (f := { f with count := f.count + (cycles.toNat : Clock) }) hcount hcur
        h.delivered hdel' (by dsimp only; omega) hworld
    exact ⟨hm, by rw [hc, hnat]⟩
  next hnot =>
    have hahead : (f.count + (cycles.toNat : Clock)).toNat < f.deadline.toNat :=
      Nat.lt_of_not_le fun hle => hnot (.inr hle)
    obtain ⟨hclean, hq⟩ := h.clean (by omega)
    rw [hclean] at hworld
    refine ⟨⟨hcount, hcur, ?_, h.delivered, hdel', hworld, fun hle => ?_, fun _ => ⟨hclean, hq⟩⟩, hnat⟩
    · dsimp only
      omega
    · exact absurd hle (Nat.not_le.mpr hahead)

theorem Matches.sync {f r : State S} (h : Matches M f r) :
    (mmioSync M f).count = r.count ∧ (mmioSync M f).synced = r.count ∧
      (mmioSync M f).deadline = 0 ∧ (mmioSync M f).delivered = r.count.toNat ∧
      (mmioSync M f).world = r.world := by
  have hbehind := h.behind
  unfold mmioSync
  split
  next hne =>
    have hlt : f.synced.toNat < f.count.toNat :=
      Nat.lt_of_le_of_ne hbehind fun heq => hne (BitVec.eq_of_toNat_eq heq)
    obtain ⟨hclean, -⟩ := h.clean (Nat.lt_of_not_le fun hle => hne (h.dirty hle))
    have hw := h.world
    rw [← hclean] at hw
    obtain ⟨hm, hc, hs, hworld⟩ :=
      Matches.serviced hM hb h.count h.current h.delivered h.delivered' hlt hw
    refine ⟨hm.count.symm, hs.trans h.count.symm, rfl, ?_, hworld⟩
    rw [h.count, ← hs]
    exact hm.delivered
  next heq =>
    have heq' : f.synced = f.count := by simpa using heq
    have hw := h.world
    rw [heq', Nat.sub_self] at hw
    exact ⟨h.count.symm, heq'.trans h.count.symm, rfl, by rw [h.count, ← heq', ← h.delivered], hw.symm⟩

/-- One operation: the states go on matching, the two accesses see the same, and the cycles of the
operation are the only ones the counter moves by. -/
theorem Matches.step {f r : State S} (h : Matches M f r) (op : Op S)
    (hwrap : f.count.toNat + charged [op] < 2 ^ 64) :
    Matches M (Cycles.step (advanceCycles M) (mmioSync M) op f).1
        (Cycles.step (advanceCyclesExact M) id op r).1 ∧
      (Cycles.step (advanceCycles M) (mmioSync M) op f).1.count.toNat =
        f.count.toNat + charged [op] ∧
      (Cycles.step (advanceCycles M) (mmioSync M) op f).2 =
        (Cycles.step (advanceCyclesExact M) id op r).2 ∧
      ∀ o ∈ (Cycles.step (advanceCycles M) (mmioSync M) op f).2,
        o.delivered = o.world.clock.toNat := by
  cases op with
  | charge cycles =>
    obtain ⟨hm, hc⟩ := Matches.charge hM hb h hwrap
    exact ⟨hm, hc, rfl, fun o ho => by cases ho⟩
  | mmio handler =>
    obtain ⟨hcount, hsynced, hdl, hdel, hworld⟩ := Matches.sync hM hb h
    have hdev : (mmioSync M f).dev = r.dev := congrArg World.dev hworld
    have hlog : (mmioSync M f).log = r.log := congrArg World.log hworld
    simp only [Cycles.step, id, hcount, hsynced, hdl, hdev, hlog, hdel, h.delivered', h.current]
    refine ⟨?_, by rw [h.count]; rfl, trivial, fun o ho => ?_⟩
    · refine ⟨rfl, rfl, le_rfl, rfl, rfl, ?_, fun _ => rfl, fun hne => absurd hne (Nat.not_lt_zero _)⟩
      simp [State.world]
    · rw [List.mem_singleton] at ho
      rw [ho]

theorem Matches.run {f r : State S} (h : Matches M f r) (ops : List (Op S))
    (hwrap : f.count.toNat + charged ops < 2 ^ 64) :
    Matches M (runDeadline M ops f).1 (runExact M ops r).1 ∧
      (runDeadline M ops f).2 = (runExact M ops r).2 ∧
      ∀ o ∈ (runDeadline M ops f).2, o.delivered = o.world.clock.toNat := by
  induction ops generalizing f r with
  | nil => exact ⟨h, rfl, fun o ho => by cases ho⟩
  | cons op ops ih =>
    have hsplit : charged (op :: ops) = charged [op] + charged ops := by cases op <;> simp [charged]
    obtain ⟨hm, hc, hseen, hdel⟩ := Matches.step hM hb h op (by omega)
    obtain ⟨hm', hseen', hdel'⟩ := ih hm (by omega)
    refine ⟨hm', congrArg₂ (· ++ ·) hseen hseen', fun o ho => ?_⟩
    rcases List.mem_append.mp ho with ho | ho
    · exact hdel o ho
    · exact hdel' o ho

/-- **Servicing by deadline is transparent**: the guest cannot tell the two paths apart, if a device at
its event does not look at the devices whose turn comes after it in `advance_devices`, and the charges
stay below the 2^64 at which the counter wraps around. -/
theorem deadline_transparent (x : Device → S) (ops : List (Op S)) (hwrap : charged ops < 2 ^ 64) :
    Transparent M x ops := by
  obtain ⟨hm, hseen, hdel⟩ := Matches.run hM hb (matches_init x) ops (by simpa [init] using hwrap)
  exact ⟨hseen, Matches.log hM hm, hdel, Matches.onTime hM hm⟩

end

/-! ## 6. A device that looks ahead -/

/-- A port with a countdown in `n.1` that, at its end, keeps a reading of the timer; a timer that
counts in `n.1`; and three devices that do nothing. `looks` says whether the port reads the timer. -/
def portAndTimer (looks : Bool) : Devices (Nat × Nat) where
  order := deviceOrder
  quiet i c s := i ≠ .sio ∨ s.1 = 0 ∨ c < s.1
  free i c s := match i with
    | .sio => (s.1 - c, s.2)
    | .timers => (s.1 + c, s.2)
    | _ => s
  advance i c _ x := match i with
    | .sio =>
      if (x .sio).1 = 0 ∨ c < (x .sio).1 then Function.update x .sio ((x .sio).1 - c, (x .sio).2)
      else Function.update x .sio (0, if looks then (x .timers).1 else 7)
    | .timers => Function.update x .timers ((x .timers).1 + c, (x .timers).2)
    | _ => x
  distance i s := if i = .sio ∧ s.1 ≠ 0 then s.1 else 0xFFFFFFFF
  service := id

theorem portAndTimer_laws (looks : Bool) : DeviceLaws (portAndTimer looks) where
  nodup := by simp [portAndTimer, deviceOrder]
  quiet_zero i s := by
    simp only [portAndTimer, decide_eq_true_eq]
    omega
  quiet_mono i s a b hab h := by
    simp only [portAndTimer, decide_eq_true_eq] at h ⊢
    rcases h with h | h | h
    · exact .inl h
    · exact .inr (.inl h)
    · exact .inr (.inr (by omega))
  quiet_free i s a b h := by
    simp only [portAndTimer, decide_eq_true_eq] at h ⊢
    cases i <;> simp only [ne_eq, reduceCtorEq, not_true, not_false_eq_true, true_or, false_or,
      decide_eq_decide] at h ⊢
    omega
  free_zero i s := by cases i <;> rfl
  free_add i s a b h := by
    cases i <;> simp only [portAndTimer] <;> first | rfl | (refine Prod.ext ?_ rfl; simp only; omega)
  advance_quiet i c t x h := by
    cases i with
    | sio =>
      have hq : (x .sio).1 = 0 ∨ c < (x .sio).1 := by simpa [portAndTimer] using h
      simp [portAndTimer, if_pos hq]
    | timers => rfl
    | cdrom | dma | vblank => simp [portAndTimer]
  advance_add i a b t x hb h := by
    cases i with
    | sio =>
      have hq : (x .sio).1 = 0 ∨ a + b - 1 < (x .sio).1 := by simpa [portAndTimer] using h
      have ha : (x .sio).1 = 0 ∨ a < (x .sio).1 := by omega
      simp only [portAndTimer, if_pos ha, Function.update_self]
      by_cases hend : (x .sio).1 = 0 ∨ a + b < (x .sio).1
      · rw [if_pos hend, if_pos (by omega), update_idem, Nat.sub_sub]
      · rw [if_neg hend, if_neg (by omega), update_idem,
          update_of_ne (by decide)]
    | timers => simp [portAndTimer, Nat.add_assoc]
    | cdrom | dma | vblank => rfl
  order_eq := rfl
  distance_le i s c h := by
    simp only [portAndTimer, decide_eq_true_eq] at h ⊢
    split at h
    next => exact .inr (.inr h)
    next hnot =>
      by_cases hi : i = .sio
      · exact .inr (.inl (by simpa [hi] using hnot))
      · exact .inl hi
  service_clock _ := rfl
  service_service _ := rfl
  service_slice _ _ _ := rfl

theorem portAndTimer_blind :
    deviceOrder.Pairwise (Blind (portAndTimer false).toEnsemble) := by
  have hnodup : deviceOrder.Pairwise (· ≠ ·) := by simp [deviceOrder]
  refine hnodup.imp ?_
  intro i k hik t x v
  have hi : Function.update x k v i = x i := update_of_ne hik _ _
  cases i with
  | sio =>
    simp only [portAndTimer, hi, Bool.false_eq_true, if_false]
    split <;> exact (update_comm hik _ _ _).symm
  | timers =>
    simp only [portAndTimer, hi]
    exact (update_comm hik _ _ _).symm
  | cdrom | dma | vblank => rfl

def chargeTwo : List (Op (Nat × Nat)) := [.charge 2#32, .mmio fun _ x => x]

def portArmed (i : Device) : Nat × Nat := if i = .sio then (2, 0) else (0, 0)

/-- A port that does not look at the timer. -/
theorem deadline_transparent_port : Transparent (portAndTimer false) portArmed chargeTwo :=
  deadline_transparent (portAndTimer_laws false) portAndTimer_blind portArmed chargeTwo (by decide)

/-- With a device that does look at one after it, the guest can tell. -/
theorem lagging_read_differs : DeviceLaws (portAndTimer true) ∧
    ¬ Transparent (portAndTimer true) portArmed chargeTwo := by
  refine ⟨portAndTimer_laws true, fun h => ?_⟩
  have hport := congrArg (List.map fun o => o.world.dev .sio) h.seen
  revert hport
  decide

end PsxRecomp.Cycles
