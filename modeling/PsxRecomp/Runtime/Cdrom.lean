import PsxRecomp.Lib.CInt
import PsxRecomp.Lib.Runs
import PsxRecomp.Machine.Cpu

/-!
# `Runtime/Cdrom.lean` — the CD-ROM controller

`runtime/src/cdrom.c`: commands and parameters come in through four registers; a command answers at once
and, for some, once more after a delay; while a read stream is on, a sector arrives every so many
cycles. All of these share one interrupt flag, one response FIFO and one sector buffer. A response waits
5000 cycles before it is presented to the interrupt controller.

The disc is a parameter. Beside the controller's own variables the state has the cycles that have been
advanced (`clock`), those the read stream has counted (`counted`), and a `log` of what happened when;
nothing in the code reads them.
-/

set_option autoImplicit false

namespace PsxRecomp.Cdrom

open CInt (wrap)

abbrev Byte := BitVec 8

/-! ## 1. Disc and state -/

structure Disc where
  present : Bool
  rawSector : Int → Option (Nat → Byte)
  userSector : Int → Option (Nat → Byte)
  sectorCount : Int
  trackCount : Int
  trackStartLba : Int → Int
  scex : List Byte

inductive Command
  | getStat | setLoc | play | readN | motorOn | stop | pause | init | mute | demute | setFilter
  | setMode | getParam | getLocL | getLocP | getTN | getTD | seekL | seekP | test | getID | readS
  | readTOC | unknown
deriving DecidableEq, Repr

def Command.ofByte (b : Byte) : Command :=
  match b.toNat with
  | 0x01 => .getStat
  | 0x02 => .setLoc
  | 0x03 => .play
  | 0x06 => .readN
  | 0x07 => .motorOn
  | 0x08 => .stop
  | 0x09 => .pause
  | 0x0A => .init
  | 0x0B => .mute
  | 0x0C => .demute
  | 0x0D => .setFilter
  | 0x0E => .setMode
  | 0x0F => .getParam
  | 0x10 => .getLocL
  | 0x11 => .getLocP
  | 0x13 => .getTN
  | 0x14 => .getTD
  | 0x15 => .seekL
  | 0x16 => .seekP
  | 0x19 => .test
  | 0x1A => .getID
  | 0x1B => .readS
  | 0x1E => .readTOC
  | _ => .unknown

/-- `CDIRQ_…` -/
def irqDataReady : Byte := 1#8
def irqComplete : Byte := 2#8
def irqAck : Byte := 3#8
def irqError : Byte := 5#8

/-- `CDSTAT_…` -/
def statError : Byte := 0x01#8
def statMotor : Byte := 0x02#8
def statSeekErr : Byte := 0x04#8
def statIdError : Byte := 0x08#8
def statShell : Byte := 0x10#8
def statRead : Byte := 0x20#8
def statSeek : Byte := 0x40#8
def statPlay : Byte := 0x80#8

inductive Event
  /-- `set_irq`, and the flag it overwrites -/
  | respond (type unacked : Byte)
  /-- `response_clear`, and the flag at that time -/
  | clear (unacked : Byte)
  /-- the interrupt line is raised -/
  | raise (flag enable : Byte)
  /-- a pending command is done -/
  | complete (cmd : Command)
  | setLoc (min sec sect : Byte)
  /-- a stream starts here, with this delay, when so much has been counted -/
  | start (min sec sect : Nat) (delay : Int) (counted : Nat)
  | stop
  /-- a sector is read from the disc -/
  | fetch (lba : Int)
  /-- the stream waits for the next one -/
  | refill (period : Int)
deriving DecidableEq, Repr

/-- `xa_stream_…` -/
structure Xa where
  file : Byte
  channel : Byte
  coding : Byte
  active : Bool
deriving DecidableEq, Repr

structure Pending where
  cmd : Command
  pending : Bool
  delay : Int
deriving DecidableEq, Repr

structure Queued where
  cmd : Command
  params : List Byte
  pending : Bool
deriving DecidableEq, Repr

structure State where
  index : Nat
  stat : Byte
  request : Byte
  irqEnable : Byte
  irqFlag : Byte
  /-- `cdrom_intc_request_latched` -/
  latched : Bool
  presentDelay : Int
  params : List Byte
  response : List Byte
  responseRead : Nat
  /-- `sector_buffer`, of `sector_size` bytes -/
  sector : List Byte
  sectorReadPos : Nat
  sectorAvailable : Bool
  lastSectorLba : Int
  lastSectorRawMode : Byte
  lastSectorXa : Byte × Byte × Byte × Byte
  seekMin : Nat
  seekSec : Nat
  seekSect : Nat
  setlocSeekFar : Bool
  reading : Bool
  readMin : Nat
  readSec : Nat
  readSect : Nat
  mode : Byte
  readDelay : Int
  filterFile : Byte
  filterChannel : Byte
  muted : Bool
  xa : Xa
  pending : Pending
  queued : Queued
  discSpeedDivisor : Int
  instantMaxPerFrame : Int
  /-- `dma_cdrom_transfer_active()` -/
  dmaActive : Bool
  clock : Nat
  counted : Nat
  log : List (Nat × Event)
deriving DecidableEq, Repr

def note (e : Event) (s : State) : State := { s with log := (s.clock, e) :: s.log }

/-! ## 2. Responses -/

def responseClear (s : State) : State :=
  note (.clear s.irqFlag) { s with responseRead := 0, response := [] }

def responsePush (s : State) (val : Byte) : State :=
  if s.response.length < 16 then { s with response := s.response ++ [val] } else s

def setIrq (type : Byte) (s : State) : State :=
  note (.respond type s.irqFlag)
    { s with irqFlag := type, latched := false, presentDelay := 5000 }

def reply (bytes : List Byte) (type : Byte) (s : State) : State :=
  setIrq type (bytes.foldl responsePush s)

/-- `irq_enable & (1 << (irq_flag - 1))` -/
def enabled (flag enable : Byte) : Bool := enable.getLsbD (flag.toNat - 1)

/-- `present_cdrom_irq`, `fire_cdrom_irq`, `refresh_cdrom_irq_line` -/
def presentCdromIrq (s : State) : State :=
  if 0 < s.presentDelay then s
  else if s.irqFlag ≠ 0#8 ∧ enabled s.irqFlag s.irqEnable = true ∧ s.latched = false then
    note (.raise s.irqFlag s.irqEnable) { s with latched := true }
  else s

/-! ## 3. Speed -/

def xaResetDecode (s : State) : State := { s with xa := ⟨0xFF#8, 0xFF#8, 0xFF#8, false⟩ }

def instantPeriod (s : State) : Int :=
  let p := Int.tdiv 564480 s.instantMaxPerFrame
  if p < 500 then 500 else p

def applySpeed (s : State) (delay : Int) : Int :=
  if s.xa.active then delay
  else if s.discSpeedDivisor = 0 then instantPeriod s
  else
    let d := delay.tdiv s.discSpeedDivisor
    if d < 500 then 500 else d

/-- `CDROM_SINGLE_SPEED_SECTOR_CYCLES` -/
def singleSpeedSectorCycles : Int := 451584

def sectorDelayCycles (s : State) : Int :=
  applySpeed s (if s.mode.getLsbD 7 then singleSpeedSectorCycles / 2 else singleSpeedSectorCycles)

def initialReadDelayCycles (s : State) : Int :=
  applySpeed s (if s.mode.getLsbD 7 then singleSpeedSectorCycles else singleSpeedSectorCycles * 2)

def seekCompleteDelayCycles (s : State) : Int :=
  applySpeed s (if s.setlocSeekFar then singleSpeedSectorCycles * 4 else 0x800)

/-! ## 4. Positions -/

def bcdToBin (bcd : Byte) : Nat := (bcd >>> 4).toNat * 10 + (bcd &&& 0x0F#8).toNat

def binToBcd (val : Nat) : Byte := BitVec.ofNat 8 (val / 10 * 16 + val % 10)

def msfToLba (m s f : Nat) : Int := (m * 60 + s) * 75 + f - 150

def lbaToMsf (lba pregap : Int) : Nat × Nat × Nat :=
  let frames := (lba + pregap).toNat
  (frames / 4500, frames % 4500 / 75, frames % 4500 % 75)

def advanceMsf (p : Nat × Nat × Nat) : Nat × Nat × Nat :=
  let (m, s, f) := p
  let (s, f) := if 75 ≤ f + 1 then (s + 1, 0) else (s, f + 1)
  if 60 ≤ s then (m + 1, 0, f) else (m, s, f)

/-! ## 5. Sectors -/

structure Delivery where
  rawMode : Byte
  xaFile : Byte
  xaChannel : Byte
  xaSubmode : Byte
  xaCoding : Byte

def classifyRawSector : Option (Nat → Byte) → Delivery
  | none => ⟨0#8, 0#8, 0#8, 0#8, 0#8⟩
  | some raw =>
    if raw 15 = 2#8 then ⟨raw 15, raw 16, raw 17, raw 18, raw 19⟩
    else ⟨raw 15, 0#8, 0#8, 0#8, 0#8⟩

def xaIsAudioRealtime (d : Delivery) : Bool := d.rawMode = 2#8 && d.xaSubmode &&& 0x44#8 = 0x44#8

/-- `maybe_deliver_xa_audio`: whether the sector went to the SPU -/
def maybeDeliverXaAudio (s : State) (d : Delivery) : State × Bool :=
  let rateCode := (d.xaCoding >>> 2) &&& 3#8
  let depthCode := (d.xaCoding >>> 4) &&& 3#8
  if s.mode.getLsbD 6 = false ∨ s.muted = true then (s, false)
  else if xaIsAudioRealtime d = false then (s, false)
  else if s.mode.getLsbD 3 = true ∧ (d.xaFile ≠ s.filterFile ∨ d.xaChannel ≠ s.filterChannel) then
    (s, false)
  else if depthCode ≠ 0#8 ∨ (rateCode ≠ 0#8 ∧ rateCode ≠ 1#8) then (s, false)
  else ({ s with xa := ⟨d.xaFile, d.xaChannel, d.xaCoding, true⟩ }, true)

def sectorData (mode : Byte) (min sec sect : Nat) (raw user : Option (Nat → Byte)) : List Byte :=
  let userData := (List.range 2048).map fun i =>
    match raw, user with
    | some raw, _ => raw (24 + i)
    | none, some user => user i
    | none, none => 0#8
  if mode.getLsbD 5 then
    match raw with
    | some raw => (List.range 2340).map fun i => raw (12 + i)
    | none =>
      [binToBcd min, binToBcd sec, binToBcd sect, 2#8] ++ List.replicate 8 0#8 ++ userData
  else userData

/-- `read_sector_at`: whether there is data for the guest -/
def readSectorAt (disc : Disc) (min sec sect : Nat) (s : State) : State × Bool :=
  let lba := msfToLba min sec sect
  let raw := if disc.present then disc.rawSector lba else none
  let user := if disc.present then disc.userSector lba else none
  let d := classifyRawSector raw
  let (s, audio) := maybeDeliverXaAudio s d
  let delivered := !(audio || (s.mode.getLsbD 3 && xaIsAudioRealtime d))
  (note (.fetch lba)
    { s with
      sector := if delivered then sectorData s.mode min sec sect raw user else []
      sectorReadPos := 0
      sectorAvailable := delivered
      lastSectorLba := lba
      lastSectorRawMode := d.rawMode
      lastSectorXa := (d.xaFile, d.xaChannel, d.xaSubmode, d.xaCoding) }, delivered)

/-- `read_sector_at` where the stream is, and `advance_msf` -/
def readNext (disc : Disc) (s : State) : State × Bool :=
  let (s', delivered) := readSectorAt disc s.readMin s.readSec s.readSect s
  let (m, sec, sect) := advanceMsf (s.readMin, s.readSec, s.readSect)
  ({ s' with readMin := m, readSec := sec, readSect := sect }, delivered)

def clearSectorBuffer (s : State) : State :=
  { s with sectorReadPos := 0, sector := [], sectorAvailable := false,
           request := s.request &&& 0x7F#8 }

def startReadStream (s : State) : State :=
  let s := clearSectorBuffer s
  let s := if s.mode.getLsbD 6 then xaResetDecode s else s
  let delay := initialReadDelayCycles s
  note (.start s.seekMin s.seekSec s.seekSect delay s.counted)
    { s with
      readMin := s.seekMin, readSec := s.seekSec, readSect := s.seekSect
      readDelay := delay, reading := true, stat := s.stat ||| statRead }

def stopReadStream (s : State) : State := note .stop { s with reading := false, readDelay := 0 }

def dataFifoReady (s : State) : Bool :=
  s.request.getLsbD 7 && s.sectorAvailable && s.sectorReadPos < s.sector.length

def deliverReadSector (disc : Disc) (s : State) : State :=
  let (s, delivered) := readNext disc s
  if delivered then presentCdromIrq (reply [s.stat] irqDataReady (responseClear s)) else s

def deliverReadSectorWithoutIrq (disc : Disc) (s : State) : State := (readNext disc s).1

/-! ## 6. Commands -/

/-- A second response is due in `delay` cycles. -/
def schedule (cmd : Command) (delay : Int) (s : State) : State :=
  { s with pending := ⟨cmd, true, delay⟩ }

/-- `SetLoc`, with at least three parameters -/
def setLoc (min sec sect : Byte) (s : State) : State :=
  let currentLba := if 0 ≤ s.lastSectorLba then s.lastSectorLba
    else msfToLba s.seekMin s.seekSec s.seekSect
  let lba := msfToLba (bcdToBin min) (bcdToBin sec) (bcdToBin sect)
  note (.setLoc min sec sect)
    { s with
      seekMin := bcdToBin min, seekSec := bcdToBin sec, seekSect := bcdToBin sect
      setlocSeekFar := 16 < (currentLba - lba).natAbs }

/-- `ReadN`, `ReadS` -/
def readCommand (disc : Disc) (s : State) : State :=
  if disc.present then
    let s := startReadStream s
    reply [s.stat] irqAck s
  else reply [s.stat ||| statError] irqError s

/-- `SeekL`, `SeekP` -/
def seekCommand (disc : Disc) (cmd : Command) (s : State) : State :=
  if disc.present then
    let s := { xaResetDecode s with stat := s.stat ||| statSeek }
    let s := reply [s.stat] irqAck s
    schedule cmd (seekCompleteDelayCycles s) s
  else reply [s.stat ||| statError ||| statSeekErr] irqError s

/-- Where `GetlocP` says the drive is -/
def drivePosition (s : State) : Int :=
  if s.reading then msfToLba s.readMin s.readSec s.readSect
  else if 0 ≤ s.lastSectorLba then s.lastSectorLba
  else msfToLba s.seekMin s.seekSec s.seekSect

/-- The switch of `exec_command` -/
def runCommand (disc : Disc) (cmd : Command) (s : State) : State :=
  match cmd with
  | .getStat =>
    let s := { s with stat := s.stat ||| (if disc.present then statMotor else statShell) }
    reply [s.stat] irqAck s
  | .setLoc =>
    let s := match s.params with
      | min :: sec :: sect :: _ => setLoc min sec sect s
      | _ => s
    reply [s.stat] irqAck s
  | .readN | .readS => readCommand disc s
  | .motorOn =>
    if s.stat &&& statMotor ≠ 0#8 then reply [s.stat ||| statError, 0x20#8] irqError s
    else
      let s := reply [s.stat] irqAck s
      schedule .motorOn (applySpeed s 30000) s
  | .stop =>
    let s := xaResetDecode (stopReadStream s)
    let s := { s with stat := s.stat &&& ~~~(statRead ||| statPlay ||| statSeek) }
    let s := reply [s.stat] irqAck s
    schedule .stop (applySpeed s 30000) s
  | .pause =>
    let s := xaResetDecode (stopReadStream s)
    let s := { s with stat := s.stat &&& ~~~statRead }
    let s := reply [s.stat] irqAck s
    schedule .pause (applySpeed s 10000) s
  | .init =>
    let s := xaResetDecode (stopReadStream s)
    let s := { s with stat := if disc.present then statMotor else statShell }
    let s := reply [s.stat] irqAck s
    schedule .init (applySpeed s 50000) s
  | .mute => reply [s.stat] irqAck { s with muted := true }
  | .demute => reply [s.stat] irqAck { s with muted := false }
  | .setFilter =>
    let s := match s.params with
      | file :: channel :: _ =>
        xaResetDecode { s with filterFile := file, filterChannel := channel }
      | _ => s
    reply [s.stat] irqAck s
  | .setMode =>
    let s := match s.params with
      | mode :: _ => if mode.getLsbD 6 then { s with mode := mode } else xaResetDecode { s with mode := mode }
      | [] => s
    reply [s.stat] irqAck s
  | .getParam => reply [s.stat, s.mode, 0#8, s.filterFile, s.filterChannel] irqAck s
  | .getLocL =>
    let lba := if 0 ≤ s.lastSectorLba then s.lastSectorLba
      else msfToLba s.readMin s.readSec s.readSect
    let (m, sec, f) := lbaToMsf lba 150
    let (file, channel, submode, coding) := s.lastSectorXa
    reply [binToBcd m, binToBcd sec, binToBcd f,
      if s.lastSectorRawMode ≠ 0#8 then s.lastSectorRawMode else 2#8,
      file, channel, submode, coding] irqAck s
  | .getLocP =>
    let lba := drivePosition s
    let (rm, rs, rf) := lbaToMsf lba 0
    let (am, as', af) := lbaToMsf lba 150
    reply [1#8, 1#8, binToBcd rm, binToBcd rs, binToBcd rf, binToBcd am, binToBcd as', binToBcd af]
      irqAck s
  | .getTN =>
    let last := if disc.present then disc.trackCount else 1
    reply [s.stat, 1#8, binToBcd (if last < 1 then 1 else last.toNat)] irqAck s
  | .getTD =>
    if disc.present then
      let raw := s.params.headD 0#8
      let lba := if raw = 0xAA#8 ∨ bcdToBin raw = 0 then disc.sectorCount
        else disc.trackStartLba (bcdToBin raw)
      let (m, sec, _) := lbaToMsf lba 150
      reply [s.stat, binToBcd m, binToBcd sec] irqAck s
    else reply [s.stat ||| statError, 0x80#8] irqError s
  | .play =>
    if disc.present then
      let s := { s with stat := s.stat &&& ~~~(statSeek ||| statRead) ||| statMotor ||| statPlay }
      reply [s.stat] irqAck s
    else reply [s.stat ||| statError] irqError s
  | .seekL | .seekP => seekCommand disc cmd s
  | .getID =>
    let s := reply [s.stat] irqAck s
    schedule .getID (applySpeed s 30000) s
  | .readTOC =>
    let s := reply [s.stat] irqAck s
    schedule .readTOC (applySpeed s 100000) s
  | .test =>
    if s.params.head? = some 0x20#8 then reply [0x94#8, 0x09#8, 0x19#8, 0xC0#8] irqAck s
    else reply [s.stat] irqAck s
  | .unknown => reply [s.stat ||| statError] irqError s

def execCommand (disc : Disc) (cmd : Command) (s : State) : State :=
  presentCdromIrq { runCommand disc cmd (responseClear s) with params := [] }

def tryExecuteQueuedCommand (disc : Disc) (s : State) : State :=
  if s.queued.pending = false ∨ s.irqFlag ≠ 0#8 then s
  else
    execCommand disc s.queued.cmd
      { s with params := s.queued.params, queued := ⟨.unknown, [], false⟩ }

def queueOrExecCommand (disc : Disc) (cmd : Command) (s : State) : State :=
  if s.irqFlag = 0#8 then execCommand disc cmd s
  else { s with queued := ⟨cmd, s.params, true⟩, params := [] }

/-! ## 7. Time -/

/-- The switch of `process_pending` -/
def completePending (disc : Disc) (cmd : Command) (s : State) : State :=
  match cmd with
  | .readN | .readS =>
    if s.reading then
      let (s, delivered) := readNext disc s
      if delivered then presentCdromIrq (reply [s.stat] irqDataReady s) else s
    else s
  | .motorOn =>
    let s := { s with stat := s.stat ||| statMotor }
    presentCdromIrq (reply [s.stat] irqComplete s)
  | .stop =>
    let s := { s with stat := s.stat &&& ~~~(statMotor ||| statRead ||| statPlay ||| statSeek) }
    presentCdromIrq (reply [s.stat] irqComplete s)
  | .pause =>
    let s := { s with stat := s.stat &&& ~~~statRead }
    presentCdromIrq (reply [s.stat] irqComplete s)
  | .init | .readTOC => presentCdromIrq (reply [s.stat] irqComplete s)
  | .seekL | .seekP =>
    let s := { s with stat := s.stat &&& ~~~statSeek, setlocSeekFar := false }
    presentCdromIrq (reply [s.stat] irqComplete s)
  | .getID =>
    if disc.present then
      presentCdromIrq (reply ([s.stat, 0#8, 0x20#8, 0#8] ++ disc.scex) irqComplete s)
    else presentCdromIrq (reply [s.stat ||| statIdError, 0x80#8] irqError s)
  | _ => s

/-- `delay -= (int)cycles` -/
def countDown (delay : Int) (cycles : Nat) : Int := wrap 32 (delay - wrap 32 cycles)

def processPending (disc : Disc) (cycles : Nat) (s : State) : State :=
  if s.pending.pending = false ∨ cycles = 0 ∨ s.irqFlag ≠ 0#8 then s
  else
    let delay := countDown s.pending.delay cycles
    if 0 < delay then { s with pending := { s.pending with delay := delay } }
    else
      completePending disc s.pending.cmd
        (note (.complete s.pending.cmd)
          (responseClear { s with pending := { s.pending with delay := delay, pending := false } }))

/-- The stream waits: for an acknowledge, unless an empty buffer is being drained by DMA. -/
def streamHeld (s : State) : Bool := s.irqFlag ≠ 0#8 && (!s.dmaActive || s.sectorAvailable)

/-- The stream waits for the next sector, a period from when this one was due. -/
def refillDelay (s : State) : State :=
  let period := sectorDelayCycles s
  note (.refill period)
    { s with readDelay := if s.readDelay + period ≤ 0 then period else s.readDelay + period }

/-- The stream counts: `read_delay -= (int)cycles`. -/
def streamed (cycles : Nat) (s : State) : State :=
  { s with
    counted := s.counted + cycles
    readDelay := if 0 < cycles then countDown s.readDelay cycles else s.readDelay }

def processReadStream (disc : Disc) (cycles : Nat) (s : State) : State :=
  if s.reading = false ∨ streamHeld s = true then s
  else
    let s := streamed cycles s
    if s.readDelay ≤ 0 then
      refillDelay (if s.irqFlag = 0#8 then deliverReadSector disc s else deliverReadSectorWithoutIrq disc s)
    else s

/-- `cdrom_irq_present_delay` after some cycles -/
def agePresentDelay (delay : Int) (cycles : Nat) : Int :=
  if 0 < delay then
    let delay := countDown delay cycles
    if delay < 0 then 0 else delay
  else delay

def age (cycles : Nat) (s : State) : State :=
  { s with clock := s.clock + cycles, presentDelay := agePresentDelay s.presentDelay cycles }

def cdromAdvance (disc : Disc) (cycles : Nat) (s : State) : State :=
  let s := presentCdromIrq (age cycles s)
  let s := tryExecuteQueuedCommand disc s
  let s := processPending disc cycles s
  let s := processReadStream disc cycles s
  presentCdromIrq s

/-- `cdrom_cycles_to_irq`, with the CD interrupt unmasked -/
def cdromCyclesToIrq (s : State) : Nat :=
  let best := 0xFFFFFFFF
  let best := if s.irqFlag ≠ 0#8 ∧ enabled s.irqFlag s.irqEnable = true
    then min best s.presentDelay.toNat else best
  let best := if s.pending.pending = true ∧ 0 < s.pending.delay
    then min best s.pending.delay.toNat else best
  if s.reading = true ∧ 0 < s.readDelay then min best s.readDelay.toNat else best

/-! ## 8. Registers -/

def takeData (n : Nat) (s : State) : State :=
  { s with
    sectorReadPos := s.sectorReadPos + n
    sectorAvailable := if s.sector.length ≤ s.sectorReadPos + n then false else s.sectorAvailable }

/-- `cdrom_read`, register `0x1F801800 + reg` -/
def cdromRead (reg : Fin 4) (s : State) : Byte × State :=
  match reg with
  | 0 =>
    let flag (b : Bool) (i : Nat) : Byte := if b then 1#8 <<< i else 0#8
    (BitVec.ofNat 8 s.index ||| flag s.params.isEmpty 3 ||| flag (s.params.length < 16) 4 |||
      flag (s.responseRead < s.response.length) 5 ||| flag (dataFifoReady s) 6 |||
      flag s.queued.pending 7, s)
  | 1 =>
    if s.responseRead < s.response.length then
      (s.response.getD s.responseRead 0#8, { s with responseRead := s.responseRead + 1 })
    else (0#8, s)
  | 2 => if dataFifoReady s then (s.sector.getD s.sectorReadPos 0#8, takeData 1 s) else (0#8, s)
  | 3 => (if s.index = 0 ∨ s.index = 2 then s.irqEnable else s.irqFlag ||| 0xE0#8, s)

/-- The acknowledge of `cdrom_write`: the flag is a number, and bits of it are cleared. -/
def acknowledge (disc : Disc) (val : Byte) (s : State) : State :=
  let flag := s.irqFlag &&& ~~~(val &&& 0x1F#8)
  let s := { s with
    irqFlag := flag
    latched := if s.irqFlag &&& 0x1F#8 ≠ 0#8 ∧ flag &&& 0x1F#8 = 0#8 then false else s.latched
    params := if val.getLsbD 6 then [] else s.params }
  tryExecuteQueuedCommand disc s

def cdromWrite (disc : Disc) (reg : Fin 4) (val : Byte) (s : State) : State :=
  match reg with
  | 0 => { s with index := (val &&& 3#8).toNat }
  | 1 => if s.index = 0 then queueOrExecCommand disc (Command.ofByte val) s else s
  | 2 =>
    if s.index = 0 then
      if s.params.length < 16 then { s with params := s.params ++ [val] } else s
    else if s.index = 1 then { s with irqEnable := val &&& 0x1F#8 }
    else s
  | 3 =>
    if s.index = 0 then
      { s with request := val, sectorReadPos := if val.getLsbD 7 then s.sectorReadPos else 0 }
    else if s.index = 1 then acknowledge disc val s
    else s

def cdromDmaReady (s : State) : Bool :=
  s.request.getLsbD 7 && s.sectorAvailable && s.sectorReadPos + 4 ≤ s.sector.length

def cdromDmaRead (s : State) : BitVec 32 × State :=
  if cdromDmaReady s then
    let byte (i : Nat) : BitVec 32 := (s.sector.getD (s.sectorReadPos + i) 0#8).setWidth 32
    (byte 0 ||| byte 1 <<< 8 ||| byte 2 <<< 16 ||| byte 3 <<< 24, takeData 4 s)
  else (0#32, s)

def cdromInit (disc : Disc) (divisor rate : Int) (dma : Bool) : State where
  index := 0
  stat := if disc.present then statMotor else statShell
  request := 0#8
  irqEnable := 0x1F#8
  irqFlag := 0#8
  latched := false
  presentDelay := 0
  params := []
  response := []
  responseRead := 0
  sector := []
  sectorReadPos := 0
  sectorAvailable := false
  lastSectorLba := -1
  lastSectorRawMode := 0#8
  lastSectorXa := (0#8, 0#8, 0#8, 0#8)
  seekMin := 0
  seekSec := 0
  seekSect := 0
  setlocSeekFar := false
  reading := false
  readMin := 0
  readSec := 0
  readSect := 0
  mode := 0#8
  readDelay := 0
  filterFile := 0#8
  filterChannel := 0#8
  muted := false
  xa := ⟨0xFF#8, 0xFF#8, 0xFF#8, false⟩
  pending := ⟨.unknown, false, 0⟩
  queued := ⟨.unknown, [], false⟩
  discSpeedDivisor := divisor
  instantMaxPerFrame := rate
  dmaActive := dma
  clock := 0
  counted := 0
  log := []

/-! ## 9. Runs -/

inductive Op
  | read (reg : Fin 4)
  | write (reg : Fin 4) (val : Byte)
  | dmaRead
  /-- a CD DMA starts or ends -/
  | dma (active : Bool)
  /-- `cdrom_set_speed`, `cdrom_notify_game_started` -/
  | speed (divisor : Int)
  /-- `cdrom_set_instant_rate` -/
  | instantRate (perFrame : Int)
  | advance (cycles : BitVec 32)

/-! The writes of a host: a parameter, a command, an index, and with index 1 the acknowledgement -/

def Op.param (val : Byte) : Op := .write 2 val
def Op.command (cmd : Byte) : Op := .write 1 cmd
def Op.index (val : Byte) : Op := .write 0 val
def Op.ack : Op := .write 3 0x1F#8

def step (disc : Disc) : Op → State → Option State
  | .read reg, s => some (cdromRead reg s).2
  | .write reg val, s => some (cdromWrite disc reg val s)
  | .dmaRead, s => some (cdromDmaRead s).2
  | .dma active, s => some { s with dmaActive := active }
  | .speed divisor, s => some { s with discSpeedDivisor := divisor }
  | .instantRate n, s => some { s with instantMaxPerFrame := max 1 (min 4096 n) }
  | .advance cycles, s => some (cdromAdvance disc cycles.toNat s)

/-- `cdrom_init`, with any speed configured -/
def Start (disc : Disc) (s : State) : Prop :=
  ∃ divisor rate dma, 1 ≤ rate ∧ rate ≤ 4096 ∧ s = cdromInit disc divisor rate dma

def Reachable (disc : Disc) (s : State) : Prop :=
  Runs.Reached (step disc) (fun _ _ => True) (Start disc) s

def runOps (disc : Disc) (ops : List Op) (s : State) : State :=
  ops.foldl (fun s op => (step disc op s).getD s) s

theorem Reachable.runOps {disc : Disc} {s : State} (h : Reachable disc s) (ops : List Op) :
    Reachable disc (runOps disc ops s) := by
  induction ops generalizing s with
  | nil => exact h
  | cons op ops ih =>
    refine ih (h.next (a := op) trivial ?_)
    cases op <;> rfl

theorem reachable_init (disc : Disc) : Reachable disc (cdromInit disc 1 32 false) :=
  .start ⟨1, 32, false, by decide, by decide, rfl⟩

def blankDisc : Disc where
  present := true
  rawSector := fun _ => none
  userSector := fun _ => some fun _ => 0#8
  sectorCount := 333000
  trackCount := 1
  trackStartLba := fun _ => 0
  scex := [0x53#8, 0x43#8, 0x45#8, 0x41#8]

end PsxRecomp.Cdrom
