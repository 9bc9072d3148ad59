import PsxRecomp.Lib.Runs
import PsxRecomp.Machine.Cpu

/-!
# `Runtime/Vblank.lean` — the vertical blank is paced in cycles

`interrupts_advance_cycles` and `interrupts_service_scheduled_events` of `runtime/src/interrupts.c`.
Cycles are counted in `cycles_since_vblank`, and a service turns whole periods of them into vertical
blanks, unless an exception is being handled or a card transfer is in progress; then they are kept. The
count is a `uint32_t`; the runs are those in which what is not yet served stays below 2^32.
-/

set_option autoImplicit false

namespace PsxRecomp.Vblank

/-! ## 1. The counter and its service -/

def vblankCycles : Word := 564480#32

/-- `VBLANK_DEFER_STALE_CYCLES` -/
def deferStaleCycles : BitVec 64 := 5644800#64

/-- The variables of `interrupts.c`, with what it asks of the clock (`psx_get_cycle_count`) and of the
serial port (`sio_get_seq`, `sio_card_protocol_active`). `advanced` is the sum of all advances, and the
source does not have it. -/
structure State where
  cyclesSinceVblank : Word := 0#32
  inException : Bool := false
  lastSioSeqSeen : Word
  lastSioProgressCycle : BitVec 64
  istat : Word := 0#32
  vblankRaiseCount : Nat := 0
  cycleCount : BitVec 64
  sioSeq : Word
  cardProtocolActive : Bool
  advanced : Nat := 0

namespace State
variable (s : State)

/-- `interrupts_init` -/
def init (cycleCount : BitVec 64) (sioSeq : Word) (cardProtocolActive : Bool) : State where
  lastSioSeqSeen := sioSeq
  lastSioProgressCycle := cycleCount
  cycleCount := cycleCount
  sioSeq := sioSeq
  cardProtocolActive := cardProtocolActive

def noteSioProgressCycle : State :=
  if s.sioSeq ≠ s.lastSioSeqSeen then
    { s with lastSioSeqSeen := s.sioSeq, lastSioProgressCycle := s.cycleCount }
  else s

def sinceProgress : BitVec 64 :=
  if s.lastSioProgressCycle ≤ s.cycleCount then s.cycleCount - s.lastSioProgressCycle else 0#64

/-- `should_defer_vblank_for_sio` -/
def shouldDefer : Bool := s.cardProtocolActive && decide (s.sinceProgress < deferStaleCycles)

def fireVblankEdge : State :=
  { s with
    cyclesSinceVblank := s.cyclesSinceVblank - vblankCycles
    istat := s.istat ||| 1#32
    vblankRaiseCount := s.vblankRaiseCount + 1 }

theorem fireVblankEdge_since {s : State} (h : vblankCycles ≤ s.cyclesSinceVblank) :
    s.fireVblankEdge.cyclesSinceVblank.toNat + 564480 = s.cyclesSinceVblank.toNat := by
  have hle : 564480 ≤ s.cyclesSinceVblank.toNat := h
  have hsub : s.fireVblankEdge.cyclesSinceVblank.toNat =
      s.cyclesSinceVblank.toNat - vblankCycles.toNat := BitVec.toNat_sub_of_le h
  have hperiod : vblankCycles.toNat = 564480 := rfl
  omega

/-- The loop of `interrupts_service_scheduled_events` -/
def fireDue (s : State) : State :=
  if _h : vblankCycles ≤ s.cyclesSinceVblank then
    if s.shouldDefer then s else fireDue s.fireVblankEdge
  else s
termination_by s.cyclesSinceVblank.toNat
decreasing_by
  have hsince := fireVblankEdge_since _h
  omega

/-- `interrupts_service_scheduled_events` -/
def serviceScheduledEvents : State :=
  let t := s.noteSioProgressCycle
  if t.inException then t else t.fireDue

/-- `interrupts_advance_cycles` -/
def advanceCycles (cycles : Word) : State :=
  { s with
    cyclesSinceVblank := s.cyclesSinceVblank + cycles
    advanced := s.advanced + cycles.toNat }.serviceScheduledEvents

end State

inductive Op
  | advance (cycles : Word)
  | service
  | setException (b : Bool)
  | sio (seq : Word) (active : Bool)
  | clock (now : BitVec 64)

def step : Op → State → Option State
  | .advance cycles, s => some (s.advanceCycles cycles)
  | .service, s => some s.serviceScheduledEvents
  | .setException b, s => some { s with inException := b }
  | .sio seq active, s => some { s with sioSeq := seq, cardProtocolActive := active }
  | .clock now, s => some { s with cycleCount := now }

def Fits : Op → State → Prop
  | .advance cycles, s => s.cyclesSinceVblank.toNat + cycles.toNat < 2 ^ 32
  | _, _ => True

/-! ## 2. Conservation -/

/-- Every cycle was turned into a part of a vertical blank, or is still counted. -/
def Conserved (s : State) : Prop :=
  s.advanced = 564480 * s.vblankRaiseCount + s.cyclesSinceVblank.toNat

/-- A card transfer has made progress within the window. -/
def Deferring (s : State) : Prop :=
  s.cardProtocolActive = true ∧ s.sinceProgress < deferStaleCycles

section
variable {s : State}

theorem Conserved.noteSioProgressCycle (h : Conserved s) : Conserved s.noteSioProgressCycle := by
  unfold State.noteSioProgressCycle
  split <;> exact h

theorem Conserved.fireVblankEdge (h : Conserved s) (hdue : vblankCycles ≤ s.cyclesSinceVblank) :
    Conserved s.fireVblankEdge := by
  have hsince := State.fireVblankEdge_since hdue
  have hcount : s.fireVblankEdge.vblankRaiseCount = s.vblankRaiseCount + 1 := rfl
  have hadv : s.fireVblankEdge.advanced = s.advanced := rfl
  unfold Conserved at h ⊢
  omega

theorem Conserved.fireDue (h : Conserved s) : Conserved s.fireDue := by
  induction s using State.fireDue.induct with
  | case1 s hdue hdefer =>
    rw [State.fireDue, dif_pos hdue, if_pos hdefer]
    exact h
  | case2 s hdue hdefer ih =>
    rw [State.fireDue, dif_pos hdue, if_neg hdefer]
    exact ih (h.fireVblankEdge hdue)
  | case3 s hdue =>
    rw [State.fireDue, dif_neg hdue]
    exact h

theorem Conserved.service (h : Conserved s) : Conserved s.serviceScheduledEvents := by
  unfold State.serviceScheduledEvents
  dsimp only
  split
  · exact h.noteSioProgressCycle
  · exact h.noteSioProgressCycle.fireDue

theorem Conserved.step (h : Conserved s) {op : Op} (hfits : Fits op s) {t : State}
    (ht : step op s = some t) : Conserved t := by
  cases op with
  | advance cycles =>
    obtain rfl := Option.some.inj ht
    have hsum : (s.cyclesSinceVblank + cycles).toNat =
        s.cyclesSinceVblank.toNat + cycles.toNat := BitVec.toNat_add_of_lt hfits
    refine Conserved.service (s := { s with
      cyclesSinceVblank := s.cyclesSinceVblank + cycles, advanced := s.advanced + cycles.toNat }) ?_
    unfold Conserved at h ⊢
    simp only [hsum, h]
    omega
  | service =>
    obtain rfl := Option.some.inj ht
    exact h.service
  | setException | sio | clock =>
    obtain rfl := Option.some.inj ht
    exact h

theorem fireDue_stops (s : State) :
    vblankCycles ≤ s.fireDue.cyclesSinceVblank → s.fireDue.shouldDefer = true := by
  induction s using State.fireDue.induct with
  | case1 s hdue hdefer =>
    rw [State.fireDue, dif_pos hdue, if_pos hdefer]
    exact fun _ => hdefer
  | case2 s hdue hdefer ih =>
    rw [State.fireDue, dif_pos hdue, if_neg hdefer]
    exact ih
  | case3 s hdue =>
    rw [State.fireDue, dif_neg hdue]
    exact fun h => absurd h hdue

theorem service_stops (s : State) (hdue : vblankCycles ≤ s.serviceScheduledEvents.cyclesSinceVblank) :
    s.serviceScheduledEvents.inException = true ∨ Deferring s.serviceScheduledEvents := by
  unfold State.serviceScheduledEvents at hdue ⊢
  dsimp only at hdue ⊢
  split at hdue
  · next hin =>
    rw [if_pos hin]
    exact .inl hin
  · next hout =>
    rw [if_neg hout]
    have hdefer := fireDue_stops _ hdue
    simp only [State.shouldDefer, Bool.and_eq_true, decide_eq_true_eq] at hdefer
    exact .inr hdefer

end

/-- Three and a half periods in an exception -/
def heldBack : State :=
  { State.init 0#64 0#32 false with cyclesSinceVblank := 1975680#32, inException := true, advanced := 1975680 }

end PsxRecomp.Vblank
