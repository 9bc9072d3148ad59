import Mathlib.Algebra.Order.BigOperators.Group.List
import PsxRecomp.Runtime.CdromMoves

/-!
# `Runtime/CdromStream.lean` — sectors in order, and not before their time

`ReadN` and `ReadS` start a stream at the position of the last `SetLoc`; it lasts until a command stops
or restarts it. What it has done so far can be read off the log: `stream` collects the sectors it has
fetched and the periods it has waited for them. The countdown is kept as an invariant (`OnPace`): what
has been counted and what is left of the delay make up what was due.
-/

set_option autoImplicit false

namespace PsxRecomp.Cdrom

open List

/-! ## 1. The stream in the log -/

structure Stream where
  /-- the parameters of the `SetLoc` before it, if there was one -/
  loc : Option (Byte × Byte × Byte)
  min : Nat
  sec : Nat
  sect : Nat
  delay : Int
  /-- what had been counted when it started -/
  since : Nat
  /-- the sectors it has fetched, in order -/
  lbas : List Int
  /-- the periods in force when it did -/
  periods : List Int
deriving DecidableEq

/-- The last `SetLoc` -/
def located : List (Nat × Event) → Option (Byte × Byte × Byte)
  | [] => none
  | (_, .setLoc min sec sect) :: _ => some (min, sec, sect)
  | _ :: log => located log

def stream : List (Nat × Event) → Option Stream
  | [] => none
  | (_, .start min sec sect delay counted) :: log =>
    some ⟨located log, min, sec, sect, delay, counted, [], []⟩
  | (_, .stop) :: _ => none
  | (_, .fetch lba) :: log => (stream log).map fun r => { r with lbas := r.lbas ++ [lba] }
  | (_, .refill period) :: log => (stream log).map fun r => { r with periods := r.periods ++ [period] }
  | _ :: log => stream log

def fetches : List (Nat × Event) → Nat
  | [] => 0
  | (_, .fetch _) :: log => fetches log + 1
  | _ :: log => fetches log

/-! ## 2. The invariant -/

def Stream.lba (r : Stream) : Int := msfToLba r.min r.sec r.sect

def InOrder (r : Stream) (min sec sect : Nat) : Prop :=
  r.sec < 60 → r.sect < 75 →
    sec < 60 ∧ sect < 75 ∧ msfToLba min sec sect = r.lba + r.lbas.length ∧
      r.lbas = (List.range r.lbas.length).map fun k : Nat => r.lba + k

/-- The cycles so far, and the rest of the delay. The last period is still being waited for. -/
def OnPace (r : Stream) (counted : Nat) (delay : Int) : Prop :=
  r.periods.length = r.lbas.length ∧ r.since + r.delay + r.periods.sum ≤ counted + delay ∧
    (r.lbas ≠ [] → r.since + r.delay + r.periods.dropLast.sum ≤ counted)

/-- The position is that of the last `SetLoc`. -/
def LocOk (log : List (Nat × Event)) (min sec sect : Nat) : Prop :=
  ∀ a b c, located log = some (a, b, c) → min = bcdToBin a ∧ sec = bcdToBin b ∧ sect = bcdToBin c

def StreamOk (r : Stream) (s : State) : Prop :=
  s.reading = true ∧ Delay s.readDelay ∧ InOrder r s.readMin s.readSec s.readSect ∧
    OnPace r s.counted s.readDelay ∧
    ∀ a b c, r.loc = some (a, b, c) → r.min = bcdToBin a ∧ r.sec = bcdToBin b ∧ r.sect = bcdToBin c

def Streaming (s : State) : Prop :=
  (stream s.log = none → s.reading = false) ∧ (∀ r, stream s.log = some r → StreamOk r s) ∧
    LocOk s.log s.seekMin s.seekSec s.seekSect

section
variable {disc : Disc} {s s' : State} {cycles : Nat}

theorem bcdToBin_le (bcd : Byte) : bcdToBin bcd ≤ 165 := by
  have hlow : (bcd &&& 0x0F#8).toNat ≤ 15 := Nat.and_le_right
  unfold bcdToBin
  simp only [BitVec.toNat_ushiftRight, Nat.shiftRight_eq_div_pow]
  omega

theorem advanceMsf_spec {m sec sect : Nat} (hsec : sec < 60) (hsect : sect < 75) :
    (advanceMsf (m, sec, sect)).2.1 < 60 ∧ (advanceMsf (m, sec, sect)).2.2 < 75 ∧
      msfToLba (advanceMsf (m, sec, sect)).1 (advanceMsf (m, sec, sect)).2.1
        (advanceMsf (m, sec, sect)).2.2 = msfToLba m sec sect + 1 := by
  unfold advanceMsf msfToLba
  dsimp only
  split_ifs <;> (dsimp only; omega)

theorem streamed_pace (hdelay : Delay s.readDelay) (hcycles : cycles < 2 ^ 32) :
    s.counted + s.readDelay ≤ (streamed cycles s).counted + (streamed cycles s).readDelay ∧
      (streamed cycles s).readDelay < 2147483648 := by
  obtain ⟨hpos, hlt⟩ := hdelay
  have hcount := countDown_cases ⟨hpos.le, hlt⟩ hcycles
  simp only [streamed]
  split_ifs <;> omega

theorem Streaming.streamed (h : Streaming s) (hcycles : cycles < 2 ^ 32)
    (hpos : 0 < (streamed cycles s).readDelay) : Streaming (streamed cycles s) := by
  obtain ⟨hnone, hsome, hloc⟩ := h
  refine ⟨hnone, fun r hr => ?_, hloc⟩
  obtain ⟨hreading, hdelay, horder, ⟨hlen, hdue, hwaited⟩, hfrom⟩ := hsome r hr
  obtain ⟨hpace, hlt⟩ := streamed_pace hdelay hcycles
  refine ⟨hreading, ⟨hpos, hlt⟩, horder, ⟨hlen, hdue.trans hpace, fun hne => ?_⟩, hfrom⟩
  exact (hwaited hne).trans (by simp only [Cdrom.streamed]; omega)

theorem Streaming.started (h : Streaming s) (xa : Xa) {delay : Int} (hdelay : Delay delay) :
    Streaming (started xa delay s) := by
  obtain ⟨-, -, hloc⟩ := h
  refine ⟨nofun, fun r hr => ?_, hloc⟩
  obtain rfl := Option.some.inj hr
  refine ⟨rfl, hdelay, fun hsec hsect => ⟨hsec, hsect, ?_, rfl⟩, ⟨rfl, ?_, nofun⟩, hloc⟩
  · exact (Int.add_zero _).symm
  · exact (Int.add_zero _).le

theorem Streaming.setLoc (h : Streaming s) (min sec sect : Byte) : Streaming (setLoc min sec sect s) := by
  refine ⟨h.1, h.2.1, fun a b c heq => ?_⟩
  obtain ⟨rfl, rfl, rfl⟩ : min = a ∧ sec = b ∧ sect = c := by
    have hloc : some (min, sec, sect) = some (a, b, c) := heq
    simpa using hloc
  exact ⟨rfl, rfl, rfl⟩

theorem Streaming.move (h : Streaming s) (hm : Move s s') : Streaming s' := by
  cases hm with
  | same hs =>
    cases hs
    exact h
  | setLoc min sec sect => exact h.setLoc min sec sect
  | start xa hdelay => exact h.started xa hdelay
  | stop => exact ⟨fun _ => rfl, nofun, h.2.2⟩
  | count hcycles hpos => exact h.streamed hcycles hpos
  | clear _ | answer _ _ _ _ | schedule _ _ | raise _ _ _ _ | age _ | wait _ _ | expire _ | queue _ _
  | dequeue | ack _ _ | ackDequeue _ | rate _ _ => exact h

/-! ## 3. A turn of the stream -/

def Stream.turned (r : Stream) (lba period : Int) : Stream :=
  { r with lbas := r.lbas ++ [lba], periods := r.periods ++ [period] }

theorem InOrder.turned {r : Stream} {min sec sect : Nat} (h : InOrder r min sec sect) (period : Int) :
    InOrder (r.turned (msfToLba min sec sect) period) (advanceMsf (min, sec, sect)).1
      (advanceMsf (min, sec, sect)).2.1 (advanceMsf (min, sec, sect)).2.2 := by
  intro hsec hsect
  obtain ⟨hreadSec, hreadSect, hlba, hlbas⟩ := h hsec hsect
  obtain ⟨hnextSec, hnextSect, hnext⟩ := advanceMsf_spec (m := min) hreadSec hreadSect
  refine ⟨hnextSec, hnextSect, ?_, ?_⟩
  · refine hnext.trans ?_
    simp only [Stream.turned, Stream.lba, length_append, length_singleton] at hlba ⊢
    omega
  · have hmore : r.lbas ++ [msfToLba min sec sect] =
        (List.range (r.lbas.length + 1)).map fun k : Nat => r.lba + k := by
      rw [range_succ, map_append, ← hlbas, hlba]
      rfl
    simp only [Stream.turned, length_append, length_singleton]
    exact hmore

theorem OnPace.turned {r : Stream} {counted counted' : Nat} {delay delay' period : Int}
    (h : OnPace r counted delay) (hpace : counted + delay ≤ counted' + delay') (hdue : delay' ≤ 0)
    (hperiod : Delay period) (lba : Int) :
    OnPace (r.turned lba period) counted' (nextDelay delay' period) := by
  obtain ⟨hlen, hsum, -⟩ := h
  obtain ⟨-, hnext⟩ := nextDelay_spec hdue hperiod
  refine ⟨?_, ?_, fun _ => ?_⟩
  · simp [Stream.turned, length_append, hlen]
  · simp only [Stream.turned, sum_append, sum_singleton]
    omega
  · simp only [Stream.turned, dropLast_concat]
    omega

theorem Streaming.fetched (h : Streaming s) (hreading : s.reading = true) (hcycles : cycles < 2 ^ 32)
    (hdue : (Cdrom.streamed cycles s).readDelay ≤ 0) (d : SectorData) {period : Int}
    (hperiod : Delay period) : Streaming (refilled period (fetched d (Cdrom.streamed cycles s))) := by
  obtain ⟨hnone, hsome, hloc⟩ := h
  cases hr : stream s.log with
  | none => exact absurd hreading (by rw [hnone hr]; decide)
  | some r =>
    obtain ⟨-, hdelay, horder, hpace, hfrom⟩ := hsome r hr
    have hstream : stream (refilled period (Cdrom.fetched d (Cdrom.streamed cycles s))).log =
        some (r.turned (msfToLba s.readMin s.readSec s.readSect) period) := by
      change ((stream s.log).map _).map _ = _
      rw [hr]
      rfl
    refine ⟨fun h => ?_, fun r' hr' => ?_, hloc⟩
    · exact absurd (hstream.symm.trans h) nofun
    · obtain rfl := Option.some.inj (hstream.symm.trans hr')
      exact ⟨hreading, (nextDelay_spec hdue hperiod).1, horder.turned period,
        hpace.turned (streamed_pace hdelay hcycles).1 hdue hperiod _, hfrom⟩

theorem Streaming.answered {period : Int} (h : Streaming (refilled period s)) (bytes : List Byte) :
    Streaming (refilled period (answered irqDataReady bytes (responseClear s))) :=
  h

theorem Streaming.sector (h : Streaming s) (hm : Sector s s') : Streaming s' := by
  cases hm with
  | silent d hreading hcycles hdue hperiod => exact h.fetched hreading hcycles hdue d hperiod
  | data d bytes hreading hcycles hdue hperiod _ =>
    exact (h.fetched hreading hcycles hdue d hperiod).answered bytes

theorem Reachable.streaming (h : Reachable disc s) : Streaming s :=
  h.keeps (fun _ _ _ => ⟨fun _ => rfl, nofun, nofun⟩) (fun _ _ => Streaming.move)
    (fun _ _ => Streaming.sector)

/-! ## 4. Sectors -/

theorem fetches_moves {n : Nat} (h : Moves s n s') : fetches s'.log = fetches s.log + n := by
  induction h with
  | refl => rfl
  | move _ hm ih =>
    rw [← ih]
    cases hm with
    | same hs =>
      cases hs
      rfl
    | _ => rfl
  | sector _ hm ih =>
    rw [← Nat.add_assoc, ← ih]
    cases hm with
    | silent d _ _ _ _ => rfl
    | data d bytes _ _ _ _ _ => rfl

/-- **The stream reads consecutive sectors, not faster than the drive.** Whatever the guest did since
the `SetLoc` at `min`, `sec`, `sect` and the command that started the stream: the sectors fetched are
consecutive from there on; `n` of them have taken the initial delay and, for any lower bound of the
periods waited, `n - 1` times that; the next operation fetches at most one, if it is an advance; and a
stream shorter than `2 ^ 31 - 746999` sectors keeps its position inside the `int`s of the source. -/
theorem stream_in_order {r : Stream} {min sec sect : Byte} (h : Reachable disc s)
    (hstream : stream s.log = some r) (hloc : r.loc = some (min, sec, sect))
    (hsec : bcdToBin sec < 60) (hsect : bcdToBin sect < 75) :
    r.lbas = (List.range r.lbas.length).map
        (fun k : Nat => msfToLba (bcdToBin min) (bcdToBin sec) (bcdToBin sect) + k) ∧
      (r.lbas ≠ [] → ∀ period : Int, (∀ p ∈ r.periods.dropLast, period ≤ p) →
        r.since + r.delay + (r.lbas.length - 1) * period ≤ s.counted) ∧
      (∀ op s', step disc op s = some s' → fetches s'.log ≤ fetches s.log + op.sectors) ∧
      (r.lbas.length + 746999 < 2 ^ 31 →
        (s.readMin * 60 + s.readSec) * 75 + s.readSect < 2 ^ 31) := by
  obtain ⟨-, hsome, -⟩ := h.streaming
  obtain ⟨-, -, horder, ⟨hlen, -, hwaited⟩, hfrom⟩ := hsome r hstream
  obtain ⟨hmin, hs, hf⟩ := hfrom _ _ _ hloc
  obtain ⟨-, -, hnow, hlbas⟩ := horder (hs ▸ hsec) (hf ▸ hsect)
  refine ⟨?_, fun hne period hperiod => ?_, fun op s' hstep => ?_, fun hshort => ?_⟩
  · rw [Stream.lba, hmin, hs, hf] at hlbas
    exact hlbas
  · have hsum := card_nsmul_le_sum _ period hperiod
    have hpos := length_pos_of_ne_nil hne
    rw [length_dropLast, hlen, nsmul_eq_mul, Nat.cast_sub hpos, Nat.cast_one] at hsum
    exact (Int.add_le_add_left hsum _).trans (hwaited hne)
  · obtain ⟨n, hn, hmoves⟩ := step_moves h.ok hstep
    rw [fetches_moves hmoves]
    exact Nat.add_le_add_left hn _
  · have hle := bcdToBin_le min
    rw [Stream.lba, hmin, hs, hf] at hnow
    unfold msfToLba at hnow
    omega

end

/-- `SetLoc` to 00:02:00 and `ReadN`, each acknowledged, and two sectors -/
def readOps : List Op :=
  [.param 0x00#8, .param 0x02#8, .param 0x00#8, .command 0x02#8, .index 1#8, .ack, .index 0#8,
    .command 0x06#8, .index 1#8, .ack, .advance 903168#32, .ack, .advance 451584#32]

theorem stream_in_order_readN :
    let s := runOps blankDisc readOps (cdromInit blankDisc 1 32 false)
    stream s.log = some ⟨some (0#8, 2#8, 0#8), 0, 2, 0, 903168, 0, [0, 1], [451584, 451584]⟩ ∧
      [0, 1] = (List.range 2).map (fun k : Nat => msfToLba 0 2 0 + k) ∧
      (0 : Int) + 903168 + (2 - 1) * 451584 ≤ s.counted ∧
      (∀ op s', step blankDisc op s = some s' → fetches s'.log ≤ fetches s.log + op.sectors) ∧
      (s.readMin * 60 + s.readSec) * 75 + s.readSect < 2 ^ 31 := by
  have hstream : stream (runOps blankDisc readOps (cdromInit blankDisc 1 32 false)).log =
      some ⟨some (0#8, 2#8, 0#8), 0, 2, 0, 903168, 0, [0, 1], [451584, 451584]⟩ := by decide +kernel
  obtain ⟨horder, hpace, hone, hint⟩ :=
    stream_in_order ((reachable_init blankDisc).runOps readOps) hstream rfl (by decide) (by decide)
  exact ⟨hstream, horder, hpace nofun 451584 (by decide), hone, hint (by decide)⟩

end PsxRecomp.Cdrom
