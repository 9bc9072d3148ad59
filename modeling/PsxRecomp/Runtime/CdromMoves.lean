import PsxRecomp.Runtime.Cdrom

/-!
# `Runtime/CdromMoves.lean` — what an operation of the CD controller is made of

A register write can run a command, an acknowledge the queued one, and an advance all of it: a queued
command, a second response and a sector. A `Move` is one thing that happens to the controller, with what
is known when it happens; `Sector` is a turn of the read stream.
-/

set_option autoImplicit false

namespace PsxRecomp.Cdrom

open CInt (wrap)

/-! ## 1. What a command does -/

def answered (type : Byte) (bytes : List Byte) (s : State) : State :=
  setIrq type { s with response := bytes }

inductive Same (s : State) : State → Prop
  | intro (index : Nat) (stat request irqEnable : Byte) (params response : List Byte) (responseRead : Nat)
      (sector : List Byte) (sectorReadPos : Nat) (sectorAvailable far : Bool) (mode file channel : Byte)
      (muted : Bool) (xa : Xa) (divisor : Int) (dma : Bool) :
      Same s { s with
        index := index, stat := stat, request := request, irqEnable := irqEnable, params := params
        response := response, responseRead := responseRead, sector := sector
        sectorReadPos := sectorReadPos, sectorAvailable := sectorAvailable, setlocSeekFar := far
        mode := mode, filterFile := file, filterChannel := channel, muted := muted, xa := xa
        discSpeedDivisor := divisor, dmaActive := dma }

inductive Prepared (s : State) : State → Prop
  | same {s' : State} : Same s s' → Prepared s s'
  | setLoc (min sec sect : Byte) : Prepared s (setLoc min sec sect s)
  | start : Prepared s (startReadStream s)
  | stop {s' : State} : Same (stopReadStream s) s' → Prepared s s'

def Command.twoPhase : Command → Bool
  | .motorOn | .stop | .pause | .init | .seekL | .seekP | .getID | .readTOC => true
  | _ => false

/-- A delay is a positive `int`. -/
def Delay (delay : Int) : Prop := 0 < delay ∧ delay < 2147483648

inductive Ran (s : State) : State → Prop
  | once {s' : State} {type : Byte} (bytes : List Byte) :
      Prepared s s' → type = irqAck ∨ type = irqError → Ran s (answered type bytes s')
  | twice {s' : State} {cmd : Command} {delay : Int} (bytes : List Byte) :
      Prepared s s' → cmd.twoPhase = true → Delay delay →
        Ran s (schedule cmd delay (answered irqAck bytes s'))

inductive Completed (s : State) : State → Prop
  | intro {type : Byte} (stat : Byte) (far : Bool) (bytes : List Byte) :
      type = irqComplete ∨ type = irqError →
        Completed s (answered type bytes { s with stat := stat, setlocSeekFar := far })

/-- The rate that is configured is one `cdrom_set_instant_rate` accepts. -/
def RateOk (s : State) : Prop := 1 ≤ s.instantMaxPerFrame ∧ s.instantMaxPerFrame ≤ 4096

variable {delay : Int} {s' : State} {type : Byte}

section
variable {disc : Disc} {s : State} {cmd : Command}

theorem Same.refl : Same s s := .intro ..

theorem foldl_responsePush (bytes : List Byte) (s : State) :
    ∃ r, bytes.foldl responsePush s = { s with response := r } := by
  induction bytes generalizing s with
  | nil => exact ⟨s.response, rfl⟩
  | cons b bytes ih =>
    rw [List.foldl_cons, responsePush]
    split
    · obtain ⟨r, hr⟩ := ih { s with response := s.response ++ [b] }
      exact ⟨r, hr⟩
    · exact ih s

theorem reply_eq (bytes : List Byte) (type : Byte) (s : State) :
    ∃ r, reply bytes type s = answered type r s := by
  obtain ⟨r, hr⟩ := foldl_responsePush bytes s
  exact ⟨r, by rw [reply, hr]; rfl⟩

theorem applySpeed_delay (hrate : RateOk s) (h : Delay delay) :
    Delay (applySpeed s delay) := by
  obtain ⟨h₁, h₂⟩ := hrate
  unfold applySpeed
  split_ifs with hxa hzero
  · exact h
  · unfold instantPeriod
    dsimp only
    have hhi := Int.natAbs_tdiv_le_natAbs 564480 s.instantMaxPerFrame
    split_ifs
    · exact ⟨by decide, by decide⟩
    · exact ⟨by omega, by omega⟩
  · dsimp only
    have hhi := Int.natAbs_tdiv_le_natAbs delay s.discSpeedDivisor
    obtain ⟨h₃, h₄⟩ := h
    split_ifs
    · exact ⟨by decide, by decide⟩
    · exact ⟨by omega, by omega⟩

theorem Ran.reply (h : Prepared s s') (htype : type = irqAck ∨ type = irqError)
    (bytes : List Byte) : Ran s (reply bytes type s') := by
  obtain ⟨r, hr⟩ := reply_eq bytes type s'
  rw [hr]
  exact .once r h htype

theorem Ran.schedule (h : Prepared s s') (hcmd : cmd.twoPhase = true) (bytes : List Byte)
    (hdelay : Delay delay) :
    Ran s (schedule cmd delay (Cdrom.reply bytes irqAck s')) := by
  obtain ⟨r, hr⟩ := reply_eq bytes irqAck s'
  rw [hr]
  exact .twice r h hcmd hdelay

theorem RateOk.reply {bytes : List Byte} (h : RateOk s) :
    RateOk (Cdrom.reply bytes type s) := by
  obtain ⟨r, hr⟩ := reply_eq bytes type s
  rw [hr]
  exact h

theorem runCommand_ran (disc : Disc) (cmd : Command) (hrate : RateOk s) :
    Ran s (runCommand disc cmd s) := by
  have hsame : Prepared s s := .same .refl
  cases cmd with
  | getStat | mute | demute | getParam | getLocL | getLocP | getTN =>
    exact .reply (.same (.intro ..)) (.inl rfl) _
  | setLoc =>
    unfold runCommand
    dsimp only
    split
    · exact .reply (.setLoc ..) (.inl rfl) _
    · exact .reply hsame (.inl rfl) _
  | readN | readS =>
    unfold runCommand readCommand
    dsimp only
    split
    · exact .reply .start (.inl rfl) _
    · exact .reply hsame (.inr rfl) _
  | motorOn =>
    unfold runCommand
    dsimp only
    split
    · exact .reply hsame (.inr rfl) _
    · exact .schedule hsame rfl _ (applySpeed_delay hrate.reply ⟨by decide, by decide⟩)
  | stop | pause | init =>
    refine .schedule (.stop (.intro ..)) rfl _ (applySpeed_delay (RateOk.reply ?_) ⟨by decide, by decide⟩)
    exact hrate
  | setFilter | setMode | test =>
    unfold runCommand
    dsimp only
    repeat' split
    all_goals exact .reply (.same (.intro ..)) (.inl rfl) _
  | getTD | play =>
    unfold runCommand
    dsimp only
    split
    · exact .reply (.same (.intro ..)) (.inl rfl) _
    · exact .reply hsame (.inr rfl) _
  | seekL | seekP =>
    unfold runCommand seekCommand
    dsimp only
    split
    · refine .schedule (.same (.intro ..)) rfl _ (applySpeed_delay (RateOk.reply ?_) ?_)
      · exact hrate
      · split <;> exact ⟨by decide, by decide⟩
    · exact .reply hsame (.inr rfl) _
  | getID | readTOC =>
    exact .schedule hsame rfl _ (applySpeed_delay hrate.reply ⟨by decide, by decide⟩)
  | unknown => exact .reply hsame (.inr rfl) _

/-- A stream starts at the position of the last `SetLoc`. -/
def started (xa : Xa) (delay : Int) (s : State) : State :=
  note (.start s.seekMin s.seekSec s.seekSect delay s.counted)
    { clearSectorBuffer s with
      xa := xa, stat := s.stat ||| statRead, reading := true, readDelay := delay
      readMin := s.seekMin, readSec := s.seekSec, readSect := s.seekSect }

theorem startReadStream_eq (hrate : RateOk s) :
    ∃ xa delay, Delay delay ∧ startReadStream s = started xa delay s := by
  have hdelay {s' : State} (h : RateOk s') : Delay (initialReadDelayCycles s') :=
    applySpeed_delay h (by split <;> exact ⟨by decide, by decide⟩)
  unfold startReadStream
  dsimp only
  split
  · exact ⟨_, _, @hdelay (xaResetDecode (clearSectorBuffer s)) hrate, rfl⟩
  · exact ⟨s.xa, _, @hdelay (clearSectorBuffer s) hrate, rfl⟩

theorem presentCdromIrq_of_pos (h : 0 < s.presentDelay) : presentCdromIrq s = s := if_pos h

theorem Ran.presentDelay (h : Ran s s') : s'.presentDelay = 5000 := by
  cases h <;> rfl

theorem execCommand_eq (disc : Disc) (cmd : Command) (hrate : RateOk s) :
    ∃ s', Ran (responseClear s) s' ∧ execCommand disc cmd s = { s' with params := [] } := by
  have hran : Ran (responseClear s) (runCommand disc cmd (responseClear s)) := runCommand_ran _ _ hrate
  refine ⟨_, hran, presentCdromIrq_of_pos ?_⟩
  rw [hran.presentDelay]
  decide

theorem Completed.reply (stat : Byte) (far : Bool)
    (htype : type = irqComplete ∨ type = irqError) (bytes : List Byte) :
    Completed s (presentCdromIrq (Cdrom.reply bytes type { s with stat := stat, setlocSeekFar := far })) := by
  obtain ⟨r, hr⟩ := reply_eq bytes type { s with stat := stat, setlocSeekFar := far }
  rw [hr, presentCdromIrq_of_pos (show (0 : Int) < 5000 by decide)]
  exact .intro stat far r htype

theorem completePending_completed (disc : Disc) (s : State) (h : cmd.twoPhase = true) :
    Completed s (completePending disc cmd s) := by
  cases cmd with
  | motorOn | stop | pause | seekL | seekP => exact .reply _ _ (.inl rfl) _
  | init | readTOC => exact .reply s.stat s.setlocSeekFar (.inl rfl) _
  | getID =>
    unfold completePending
    dsimp only
    split
    · exact .reply s.stat s.setlocSeekFar (.inl rfl) _
    · exact .reply s.stat s.setlocSeekFar (.inr rfl) _
  | _ => cases h

/-- What a sector changes, apart from the position and the log -/
structure SectorData where
  xa : Xa
  sector : List Byte
  delivered : Bool
  rawMode : Byte
  subheader : Byte × Byte × Byte × Byte

def fetched (d : SectorData) (s : State) : State :=
  let lba := msfToLba s.readMin s.readSec s.readSect
  let next := advanceMsf (s.readMin, s.readSec, s.readSect)
  note (.fetch lba)
    { s with
      xa := d.xa, sector := d.sector, sectorReadPos := 0, sectorAvailable := d.delivered
      lastSectorLba := lba, lastSectorRawMode := d.rawMode, lastSectorXa := d.subheader
      readMin := next.1, readSec := next.2.1, readSect := next.2.2 }

theorem maybeDeliverXaAudio_eq (s : State) (d : Delivery) :
    ∃ xa, (maybeDeliverXaAudio s d).1 = { s with xa := xa } := by
  unfold maybeDeliverXaAudio
  dsimp only
  split_ifs <;> exact ⟨_, rfl⟩

theorem readNext_eq (disc : Disc) (s : State) :
    ∃ d : SectorData, readNext disc s = (fetched d s, d.delivered) := by
  unfold readNext readSectorAt
  dsimp only
  generalize classifyRawSector _ = d
  obtain ⟨xa, hxa⟩ := maybeDeliverXaAudio_eq s d
  generalize maybeDeliverXaAudio s d = r at hxa
  obtain ⟨s', audio⟩ := r
  obtain rfl : s' = { s with xa := xa } := hxa
  exact ⟨⟨xa, _, _, d.rawMode, _⟩, rfl⟩

theorem deliverReadSector_eq (disc : Disc) (s : State) :
    ∃ d : SectorData, deliverReadSector disc s = fetched d s ∨
      ∃ bytes, deliverReadSector disc s = answered irqDataReady bytes (responseClear (fetched d s)) := by
  obtain ⟨d, hd⟩ := readNext_eq disc s
  refine ⟨d, ?_⟩
  unfold deliverReadSector
  rw [hd]
  dsimp only
  split
  · obtain ⟨r, hr⟩ := reply_eq [(fetched d s).stat] irqDataReady (responseClear (fetched d s))
    exact .inr ⟨r, by rw [hr]; exact presentCdromIrq_of_pos (show (0 : Int) < 5000 by decide)⟩
  · exact .inl rfl

end

/-! ## 2. Moves -/

def PendingOk (s : State) : Prop := s.pending.pending = true → s.pending.cmd.twoPhase = true

def expired (cycles : Nat) (s : State) : State :=
  note (.complete s.pending.cmd)
    (responseClear
      { s with pending := { s.pending with delay := countDown s.pending.delay cycles, pending := false } })

/-- What is left of the delay when a sector is fetched, and a period more -/
def nextDelay (delay period : Int) : Int := if delay + period ≤ 0 then period else delay + period

def refilled (period : Int) (s : State) : State :=
  note (.refill period) { s with readDelay := nextDelay s.readDelay period }

def acked (val : Byte) (s : State) : State :=
  let flag := s.irqFlag &&& ~~~(val &&& 0x1F#8)
  { s with
    irqFlag := flag
    latched := if s.irqFlag &&& 0x1F#8 ≠ 0#8 ∧ flag &&& 0x1F#8 = 0#8 then false else s.latched
    params := if val.getLsbD 6 then [] else s.params }

inductive Move (s : State) : State → Prop
  | same {s' : State} : Same s s' → Move s s'
  | setLoc (min sec sect : Byte) : Move s (setLoc min sec sect s)
  | start (xa : Xa) {delay : Int} : Delay delay → Move s (started xa delay s)
  | stop : Move s (stopReadStream s)
  | clear : s.irqFlag = 0#8 → Move s (responseClear s)
  | answer {type : Byte} (bytes : List Byte) :
      s.irqFlag = 0#8 → type ≠ 0#8 → type.toNat < 32 → Move s (answered type bytes s)
  | schedule {cmd : Command} {delay : Int} :
      cmd.twoPhase = true → Delay delay → Move s (schedule cmd delay s)
  | raise : s.presentDelay ≤ 0 → s.irqFlag ≠ 0#8 → enabled s.irqFlag s.irqEnable = true →
      s.latched = false → Move s (note (.raise s.irqFlag s.irqEnable) { s with latched := true })
  | age {cycles : Nat} : cycles < 2 ^ 32 → Move s (age cycles s)
  | wait {cycles : Nat} : cycles < 2 ^ 32 → 0 < countDown s.pending.delay cycles →
      Move s { s with pending := { s.pending with delay := countDown s.pending.delay cycles } }
  | expire {cycles : Nat} : s.irqFlag = 0#8 → Move s (expired cycles s)
  | count {cycles : Nat} : cycles < 2 ^ 32 → 0 < (streamed cycles s).readDelay → Move s (streamed cycles s)
  | queue (cmd : Command) :
      s.irqFlag ≠ 0#8 → Move s { s with queued := ⟨cmd, s.params, true⟩, params := [] }
  | dequeue : Move s { s with params := s.queued.params, queued := ⟨.unknown, [], false⟩ }
  | ack (val : Byte) : (acked val s).irqFlag ≠ 0#8 ∨ s.queued.pending = false → Move s (acked val s)
  /-- with the acknowledge the queued command is taken up -/
  | ackDequeue (val : Byte) :
      Move s { acked val s with params := s.queued.params, queued := ⟨.unknown, [], false⟩ }
  | rate {n : Int} : 1 ≤ n → n ≤ 4096 → Move s { s with instantMaxPerFrame := n }

/-- A turn of the stream: a sector, with a response if there is data for the guest and none unacknowledged -/
inductive Sector (s : State) : State → Prop
  | silent {cycles : Nat} {period : Int} (d : SectorData) : s.reading = true → cycles < 2 ^ 32 →
      (streamed cycles s).readDelay ≤ 0 → Delay period →
      Sector s (refilled period (fetched d (streamed cycles s)))
  | data {cycles : Nat} {period : Int} (d : SectorData) (bytes : List Byte) : s.reading = true →
      cycles < 2 ^ 32 → (streamed cycles s).readDelay ≤ 0 → Delay period → s.irqFlag = 0#8 →
      Sector s (refilled period (answered irqDataReady bytes (responseClear (fetched d (streamed cycles s)))))

inductive Moves (s : State) : Nat → State → Prop
  | refl : Moves s 0 s
  | move {n : Nat} {s₁ s₂ : State} : Moves s n s₁ → Move s₁ s₂ → Moves s n s₂
  | sector {n : Nat} {s₁ s₂ : State} : Moves s n s₁ → Sector s₁ s₂ → Moves s (n + 1) s₂

/-- An invariant of the controller is shown by one case for each kind of move. -/
theorem Moves.keeps {I : State → Prop} {s : State} {n : Nat} (h : Moves s n s')
    (hmove : ∀ s s', I s → Move s s' → I s') (hsector : ∀ s s', I s → Sector s s' → I s') (hs : I s) :
    I s' := by
  induction h with
  | refl => exact hs
  | move _ hm ih => exact hmove _ _ ih hm
  | sector _ hm ih => exact hsector _ _ ih hm

/-! ## 3. Operations as moves -/

/-- What the delays of later commands and responses depend on -/
def Ok (s : State) : Prop := RateOk s ∧ PendingOk s

section
variable {disc : Disc} {s s₀ s' : State} {n cycles : Nat}

theorem Ok.move (h : Ok s) (hm : Move s s') : Ok s' := by
  cases hm with
  | same hs =>
    cases hs
    exact h
  | schedule hcmd _ => exact ⟨h.1, fun _ => hcmd⟩
  | raise _ _ _ _ => exact h
  | wait _ _ => exact ⟨h.1, h.2⟩
  | expire _ => exact ⟨h.1, nofun⟩
  | rate h₁ h₂ => exact ⟨⟨h₁, h₂⟩, h.2⟩
  | setLoc _ _ _ | start _ _ | stop | clear _ | answer _ _ _ _ | age _ | count _ _ | queue _ _
  | dequeue | ack _ _ | ackDequeue _ => exact h

theorem Ok.sector (h : Ok s) (hm : Sector s s') : Ok s' := by
  cases hm <;> exact h

theorem Moves.ok (h : Moves s₀ n s) (hok : Ok s₀) : Ok s :=
  h.keeps (fun _ _ => Ok.move) (fun _ _ => Ok.sector) hok

theorem Moves.present (h : Moves s₀ n s) : Moves s₀ n (presentCdromIrq s) := by
  unfold presentCdromIrq
  split_ifs with hdelay hraise
  · exact h
  · exact h.move (.raise (not_lt.mp hdelay) hraise.1 hraise.2.1 hraise.2.2)
  · exact h

theorem Moves.prepared (h : Moves s₀ n s) (hrate : RateOk s) (hp : Prepared s s') :
    Moves s₀ n s' ∧ s'.irqFlag = s.irqFlag := by
  cases hp with
  | same hs =>
    refine ⟨h.move (.same hs), ?_⟩
    cases hs
    rfl
  | setLoc min sec sect => exact ⟨h.move (.setLoc min sec sect), rfl⟩
  | start =>
    obtain ⟨xa, delay, hdelay, heq⟩ := startReadStream_eq hrate
    rw [heq]
    exact ⟨h.move (.start xa hdelay), rfl⟩
  | stop hs =>
    refine ⟨(h.move .stop).move (.same hs), ?_⟩
    cases hs
    rfl

theorem Moves.ran (h : Moves s₀ n s) (hrate : RateOk s) (h₀ : s.irqFlag = 0#8) (hr : Ran s s') :
    Moves s₀ n s' := by
  cases hr with
  | once bytes hp htype =>
    obtain ⟨hmoves, hflag⟩ := h.prepared hrate hp
    refine hmoves.move (.answer bytes (hflag.trans h₀) ?_ ?_) <;> obtain rfl | rfl := htype <;> decide
  | twice bytes hp hcmd hdelay =>
    obtain ⟨hmoves, hflag⟩ := h.prepared hrate hp
    exact (hmoves.move (.answer bytes (hflag.trans h₀) (by decide) (by decide))).move (.schedule hcmd hdelay)

theorem Moves.exec (h : Moves s₀ n s) (hrate : RateOk s) (h₀ : s.irqFlag = 0#8) (cmd : Command) :
    Moves s₀ n (execCommand disc cmd s) := by
  obtain ⟨s', hran, heq⟩ := execCommand_eq disc cmd hrate
  have hs' : Moves s₀ n s' := (h.move (.clear h₀)).ran hrate h₀ hran
  rw [heq]
  exact hs'.move (.same (.intro ..))

theorem Moves.tryExecute (h : Moves s₀ n s) (hrate : RateOk s) :
    Moves s₀ n (tryExecuteQueuedCommand disc s) := by
  unfold tryExecuteQueuedCommand
  split
  · exact h
  · next hc =>
    rw [not_or, not_not] at hc
    exact (h.move .dequeue).exec hrate hc.2 _

theorem Moves.acknowledge (h : Moves s₀ n s) (hrate : RateOk s) (val : Byte) :
    Moves s₀ n (acknowledge disc val s) := by
  change Moves s₀ n (tryExecuteQueuedCommand disc (acked val s))
  unfold tryExecuteQueuedCommand
  split
  · next hc => exact h.move (.ack val hc.symm)
  · next hc =>
    rw [not_or, not_not] at hc
    exact (h.move (.ackDequeue val)).exec hrate hc.2 _

theorem Moves.pending (h : Moves s₀ n s) (hok : PendingOk s) (hcycles : cycles < 2 ^ 32) :
    Moves s₀ n (processPending disc cycles s) := by
  unfold processPending
  split
  · exact h
  · next hc =>
    simp only [not_or, Bool.not_eq_false, not_not] at hc
    obtain ⟨hpending, -, h₀⟩ := hc
    dsimp only
    split
    · next hdelay => exact h.move (.wait hcycles hdelay)
    · have hexpired : Moves s₀ n (expired cycles s) := h.move (.expire h₀)
      have hdone : Completed (expired cycles s) (completePending disc s.pending.cmd (expired cycles s)) :=
        completePending_completed disc _ (hok hpending)
      change Moves s₀ n (completePending disc s.pending.cmd (expired cycles s))
      generalize completePending disc s.pending.cmd (expired cycles s) = s' at hdone
      cases hdone with
      | intro stat far bytes htype =>
        refine (hexpired.move (.same (.intro ..))).move (.answer bytes h₀ ?_ ?_) <;>
          obtain rfl | rfl := htype <;> decide

theorem refillDelay_eq (hrate : RateOk s) : ∃ period, Delay period ∧ refillDelay s = refilled period s :=
  ⟨sectorDelayCycles s, applySpeed_delay hrate (by split <;> exact ⟨by decide, by decide⟩), rfl⟩

theorem Moves.stream (h : Moves s₀ n s) (hrate : RateOk s) (hcycles : cycles < 2 ^ 32) :
    ∃ m ≤ n + 1, Moves s₀ m (processReadStream disc cycles s) := by
  have hsilent (hreading : s.reading = true) (hdue : (streamed cycles s).readDelay ≤ 0) (d : SectorData) :
      Moves s₀ (n + 1) (refillDelay (fetched d (streamed cycles s))) := by
    obtain ⟨period, hperiod, heq⟩ := @refillDelay_eq (fetched d (streamed cycles s)) hrate
    rw [heq]
    exact h.sector (.silent d hreading hcycles hdue hperiod)
  unfold processReadStream
  split
  · exact ⟨n, Nat.le_succ n, h⟩
  · next hc =>
    simp only [not_or, Bool.not_eq_false, Bool.not_eq_true] at hc
    obtain ⟨hreading, -⟩ := hc
    dsimp only
    split
    · next hdue =>
      refine ⟨n + 1, le_rfl, ?_⟩
      split
      · next h₀ =>
        obtain ⟨d, hd | ⟨bytes, hd⟩⟩ := deliverReadSector_eq disc (streamed cycles s)
        · rw [hd]
          exact hsilent hreading hdue d
        · obtain ⟨period, hperiod, heq⟩ :=
            @refillDelay_eq (answered irqDataReady bytes (responseClear (fetched d (streamed cycles s)))) hrate
          rw [hd, heq]
          exact h.sector (.data d bytes hreading hcycles hdue hperiod h₀)
      · obtain ⟨d, hd⟩ := readNext_eq disc (streamed cycles s)
        rw [deliverReadSectorWithoutIrq, hd]
        exact hsilent hreading hdue d
    · next hdue => exact ⟨n, Nat.le_succ n, h.move (.count hcycles (not_le.mp hdue))⟩

theorem advance_moves (hok : Ok s) (hcycles : cycles < 2 ^ 32) :
    ∃ n ≤ 1, Moves s n (cdromAdvance disc cycles s) := by
  have haged : Moves s 0 (presentCdromIrq (age cycles s)) := (Moves.refl.move (.age hcycles)).present
  have hqueued : Moves s 0 (tryExecuteQueuedCommand disc _) := haged.tryExecute (haged.ok hok).1
  have hpending : Moves s 0 (processPending disc cycles _) := hqueued.pending (hqueued.ok hok).2 hcycles
  obtain ⟨n, hn, hstream⟩ : ∃ n ≤ 1, Moves s n (processReadStream disc cycles _) :=
    hpending.stream (hpending.ok hok).1 hcycles
  exact ⟨n, hn, hstream.present⟩

theorem write_moves (hok : Ok s) (reg : Fin 4) (val : Byte) : Moves s 0 (cdromWrite disc reg val s) := by
  have hsame {s' : State} (hs : Same s s') : Moves s 0 s' := Moves.refl.move (.same hs)
  unfold cdromWrite
  split
  · exact hsame (.intro ..)
  · split
    · unfold queueOrExecCommand
      split
      · next h₀ => exact Moves.refl.exec hok.1 h₀ _
      · next h₀ => exact Moves.refl.move (.queue _ h₀)
    · exact .refl
  · split_ifs <;> exact hsame (.intro ..)
  · split_ifs
    · exact hsame (.intro ..)
    · exact hsame (.intro ..)
    · exact Moves.refl.acknowledge hok.1 val
    · exact .refl

def Op.sectors : Op → Nat
  | .advance _ => 1
  | _ => 0

/-- Every operation is made of moves, and of a sector at most. -/
theorem step_moves (hok : Ok s) {op : Op} (hstep : step disc op s = some s') :
    ∃ n ≤ op.sectors, Moves s n s' := by
  have hsame {s' : State} (hs : Same s s') : Moves s 0 s' := Moves.refl.move (.same hs)
  rcases op with reg | ⟨reg, val⟩ | _ | active | divisor | n | cycles <;>
    obtain rfl := Option.some.inj hstep
  · refine ⟨0, le_rfl, ?_⟩
    unfold cdromRead
    repeat' split
    all_goals exact hsame (.intro ..)
  · exact ⟨0, le_rfl, write_moves hok reg val⟩
  · refine ⟨0, le_rfl, ?_⟩
    unfold cdromDmaRead
    split <;> exact hsame (.intro ..)
  · exact ⟨0, le_rfl, hsame (.intro ..)⟩
  · exact ⟨0, le_rfl, hsame (.intro ..)⟩
  · exact ⟨0, le_rfl, Moves.refl.move (.rate (by omega) (by omega))⟩
  · exact advance_moves hok cycles.isLt

theorem Reachable.ok (h : Reachable disc s) : Ok s := by
  refine Runs.Reached.invariant (I := Ok) ?_ ?_ h
  · rintro s ⟨divisor, rate, dma, h₁, h₂, rfl⟩
    exact ⟨⟨h₁, h₂⟩, nofun⟩
  · intro op s s' hs _ hstep
    obtain ⟨n, -, hmoves⟩ := step_moves hs hstep
    exact hmoves.ok hs

theorem Reachable.keeps {I : State → Prop} (h : Reachable disc s)
    (hinit : ∀ divisor rate dma, I (cdromInit disc divisor rate dma))
    (hmove : ∀ s s', I s → Move s s' → I s') (hsector : ∀ s s', I s → Sector s s' → I s') : I s := by
  have hboth : Ok s ∧ I s := by
    refine Runs.Reached.invariant (I := fun s => Ok s ∧ I s) ?_ ?_ h
    · intro s hs
      have hstart : Reachable disc s := .start hs
      obtain ⟨divisor, rate, dma, -, -, rfl⟩ := hs
      exact ⟨hstart.ok, hinit divisor rate dma⟩
    · intro op s s' hs _ hstep
      obtain ⟨n, -, hmoves⟩ := step_moves hs.1 hstep
      exact ⟨hmoves.ok hs.1, hmoves.keeps hmove hsector hs.2⟩
  exact hboth.2

end

/-! ## 4. Countdowns -/

theorem countDown_cases {cycles : Nat} (hdelay : 0 ≤ delay ∧ delay < 2147483648)
    (hcycles : cycles < 2 ^ 32) :
    countDown delay cycles < 2147483648 ∧
      (countDown delay cycles = delay - cycles ∨
        countDown delay cycles = delay - cycles + 4294967296 ∧ 2147483648 + delay < cycles) := by
  unfold countDown wrap
  rw [Int.bmod_def, Int.bmod_def]
  split_ifs <;> omega

theorem nextDelay_spec {period : Int} (hdue : delay ≤ 0) (hperiod : Delay period) :
    Delay (nextDelay delay period) ∧ delay + period ≤ nextDelay delay period := by
  obtain ⟨hpos, hlt⟩ := hperiod
  unfold nextDelay Delay
  split_ifs <;> omega

end PsxRecomp.Cdrom
