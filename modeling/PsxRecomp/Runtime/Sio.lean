import PsxRecomp.Machine.Cpu

/-!
# `Runtime/Sio.lean` — the serial port and the memory cards behind it

`runtime/src/sio.c` in its cycle-paced build and the sector calls of `runtime/src/memcard.c`. A byte
the host writes to `SIO_TX_DATA` is shifted out over 1088 cycles; when it is out, the device that owns
the bus answers it (`sioProcessByte`), and 170 cycles after an answer with an acknowledge the interrupt
is raised. The memory card's side of the protocol is `mcProcessByte`, one state a byte.

The pad is the other device of the bus; its protocol is a parameter (`Pad`), since nothing it does
reaches a card. `trace` lists the bytes that were shifted out and the deselects and resets between
them, as the starvation ring of the source records them; no function reads it.
-/

set_option autoImplicit false

namespace PsxRecomp.Sio

abbrev Byte := BitVec 8

/-- A port of the bus: `selected_slot`, `mc_slot` -/
abbrev Slot := Fin 2

instance neZero_slots : NeZero 2 := ⟨by decide⟩

/-- 128 bytes: a sector of a card, or the buffer it is moved through -/
abbrev Sector := Vector Byte 128

/-! ## 1. Card images -/

/-- `MemCard`, its 128 KB by sectors -/
structure Card where
  present : Bool
  data : Fin 1024 → Sector

/-- `memcard_read_sector`: the buffer is left alone when the card or the sector is not there -/
def memcardReadSector (c : Card) (sector : Nat) (buf : Sector) : Sector :=
  if h : sector < 1024 then if c.present then c.data ⟨sector, h⟩ else buf else buf

def memcardWriteSector (c : Card) (sector : Nat) (buf : Sector) : Card :=
  if h : sector < 1024 then
    if c.present then { c with data := Function.update c.data ⟨sector, h⟩ buf } else c
  else c

/-! ## 2. The bus: a pad and two cards -/

inductive McState
  | idle | cmd | id1 | id2 | addrMsb | addrLsb
  | readAck1 | readAck2 | readMsbEcho | readLsbEcho | readData | readChk | readEnd
  | writeData | writeChk | writeAck1 | writeAck2 | writeEnd
  | getId1 | getId2 | getId3 | getId4
deriving DecidableEq, Repr

/-- `McSlotState`, and the working variables `mc_state` to `mc_flag` -/
structure McSlotState where
  state : McState := .idle
  cmd : Byte := 0#8
  sector : BitVec 16 := 0#16
  sectorMsb : Byte := 0#8
  sectorLsb : Byte := 0#8
  data : Sector := Vector.replicate 128 0#8
  dataIdx : Nat := 0
  checksum : Byte := 0#8
  flag : Byte := 0x08#8

/-- `ActiveDevice` -/
inductive Device
  | none | pad | memcard
deriving DecidableEq, Repr

/-- What an answer puts into `sio_rx_data` and `sio_stat` -/
structure Reply where
  rx : Byte
  ack : Bool
  rxRdy : Bool := true

/-- `pad_process_byte`, and the resets of its state -/
structure Pad (P : Type) where
  processByte : Slot → Byte → P → P × Reply
  idle : P → P

structure Bus (P : Type) where
  device : Device := .none
  selectedSlot : Slot := 0
  /-- the working variables -/
  mc : McSlotState := {}
  mcSlot : Slot := 0
  mcSlots : Slot → McSlotState := fun _ => {}
  cards : Slot → Card
  pad : P

section
variable {P : Type}

/-- The checksum of a transfer: the address bytes and the data, xored -/
def mcXor (msb lsb : Byte) (data : Sector) : Byte :=
  data.toList.foldl (· ^^^ ·) (msb ^^^ lsb)

/-- `((uint16_t)mc_sector_msb << 8) | mc_sector_lsb` -/
def sectorOf (msb lsb : Byte) : BitVec 16 := (msb.setWidth 16 <<< 8) ||| lsb.setWidth 16

namespace Bus

def goto (st : McState) (b : Bus P) : Bus P := { b with mc := { b.mc with state := st } }

def mcSaveSlot (slot : Slot) (b : Bus P) : Bus P :=
  { b with mcSlots := Function.update b.mcSlots slot b.mc }

def mcLoadSlot (slot : Slot) (b : Bus P) : Bus P := { b with mc := b.mcSlots slot }

end Bus

open Bus

/-- `MC_ADDR_LSB`: the address is complete; a read fetches its sector here -/
def mcAddrLsb (tx : Byte) (b : Bus P) : Bus P :=
  let sector := sectorOf b.mc.sectorMsb tx
  let mc := { b.mc with sectorLsb := tx, sector := sector, dataIdx := 0 }
  if b.mc.cmd = 0x52#8 then
    let data := if sector.toNat < 1024
      then memcardReadSector (b.cards b.mcSlot) sector.toNat b.mc.data
      else Vector.replicate 128 0xFF#8
    { b with mc := { mc with
        data := data, checksum := mcXor b.mc.sectorMsb tx data, state := .readAck1 } }
  else { b with mc := { mc with state := .writeData } }

/-- `MC_WRITE_CHK`: the only place that writes a card -/
def mcWriteChk (tx : Byte) (b : Bus P) : Bus P :=
  let mc := { b.mc with state := .writeAck1 }
  if tx = mcXor mc.sectorMsb mc.sectorLsb mc.data ∧ mc.sector.toNat < 1024 then
    { b with
      cards := Function.update b.cards b.mcSlot
        (memcardWriteSector (b.cards b.mcSlot) mc.sector.toNat mc.data)
      mc := { mc with checksum := 0x47#8 } }
  else if 1024 ≤ mc.sector.toNat then { b with mc := { mc with checksum := 0xFF#8 } }
  else { b with mc := { mc with checksum := 0x4E#8 } }

def mcProcessByte (tx : Byte) (b : Bus P) : Bus P × Reply :=
  match b.mc.state with
  | .idle =>
    let b := { b with mcSlot := b.selectedSlot }
    if (b.cards b.mcSlot).present then (b.goto .cmd, ⟨0xFF#8, true, true⟩)
    else (b, ⟨0xFF#8, false, true⟩)
  | .cmd =>
    if tx = 0x52#8 ∨ tx = 0x57#8 ∨ tx = 0x53#8 then
      ({ b with mc := { b.mc with cmd := tx, state := .id1, flag := 0x00#8 } },
        ⟨b.mc.flag, true, true⟩)
    else ({ b with mc := { b.mc with cmd := tx, state := .idle } }, ⟨0xFF#8, false, true⟩)
  | .id1 => (b.goto .id2, ⟨0x5A#8, true, true⟩)
  | .id2 => (b.goto (if b.mc.cmd = 0x53#8 then .getId1 else .addrMsb), ⟨0x5D#8, true, true⟩)
  | .getId1 => (b.goto .getId2, ⟨0x04#8, true, true⟩)
  | .getId2 => (b.goto .getId3, ⟨0x00#8, true, true⟩)
  | .getId3 => (b.goto .getId4, ⟨0x00#8, true, true⟩)
  | .getId4 => (b.goto .idle, ⟨0x80#8, false, true⟩)
  | .addrMsb =>
    ({ b with mc := { b.mc with sectorMsb := tx, state := .addrLsb } }, ⟨0x00#8, true, true⟩)
  | .addrLsb => (mcAddrLsb tx b, ⟨0x00#8, true, true⟩)
  | .readAck1 => (b.goto .readAck2, ⟨0x5C#8, true, true⟩)
  | .readAck2 => (b.goto .readMsbEcho, ⟨0x5D#8, true, true⟩)
  | .readMsbEcho => (b.goto .readLsbEcho, ⟨b.mc.sectorMsb, true, true⟩)
  | .readLsbEcho =>
    ({ b with mc := { b.mc with state := .readData, dataIdx := 0 } },
      ⟨b.mc.sectorLsb, true, true⟩)
  | .readData =>
    ({ b with mc := { b.mc with
        dataIdx := b.mc.dataIdx + 1
        state := if 128 ≤ b.mc.dataIdx + 1 then .readChk else .readData } },
      ⟨(b.mc.data[b.mc.dataIdx]?).getD 0#8, true, true⟩)
  | .readChk => (b.goto .readEnd, ⟨b.mc.checksum, true, true⟩)
  | .readEnd =>
    (b.goto .idle, ⟨if b.mc.sector.toNat < 1024 then 0x47#8 else 0xFF#8, false, true⟩)
  | .writeData =>
    ({ b with mc := { b.mc with
        data := b.mc.data.setIfInBounds b.mc.dataIdx tx
        dataIdx := b.mc.dataIdx + 1
        state := if 128 ≤ b.mc.dataIdx + 1 then .writeChk else .writeData } },
      ⟨0x00#8, true, true⟩)
  | .writeChk => (mcWriteChk tx b, ⟨0x00#8, true, true⟩)
  | .writeAck1 => (b.goto .writeAck2, ⟨0x5C#8, true, true⟩)
  | .writeAck2 => (b.goto .writeEnd, ⟨0x5D#8, true, true⟩)
  | .writeEnd =>
    ({ b with mc := { b.mc with state := .idle, flag := 0x00#8 } }, ⟨b.mc.checksum, false, true⟩)

variable (pad : Pad P)

def padProcessByte (tx : Byte) (b : Bus P) : Bus P × Reply :=
  let (p, r) := pad.processByte b.selectedSlot tx b.pad
  ({ b with pad := p }, { r with rxRdy := true })

def stray : Reply := ⟨0xFF#8, false, false⟩

/-- `(sio_ctrl & SIO_CTRL_SLOT) ? 1 : 0` -/
def ctrlSlot (ctrl : BitVec 16) : Slot := if ctrl.getLsbD 13 then 1 else 0

/-- `sio_process_byte`, `active_device == DEV_NONE` -/
def processUnowned (ctrl : BitVec 16) (tx : Byte) (b : Bus P) : Bus P × Reply :=
  let b := { b with selectedSlot := ctrlSlot ctrl }
  if tx = 0x01#8 then
    let b := if b.mc.state ≠ .idle then (b.mcSaveSlot b.mcSlot).goto .idle else b
    padProcessByte pad tx { b with device := .pad }
  else if tx = 0x81#8 then
    -- a protocol the slot still holds is aborted
    let b := (b.mcLoadSlot b.selectedSlot).goto .idle
    mcProcessByte tx { b with device := .memcard, mcSlot := b.selectedSlot }
  else
    let b := b.mcLoadSlot b.selectedSlot
    if b.mc.state ≠ .idle ∧ b.selectedSlot = b.mcSlot then
      mcProcessByte tx { b with device := .memcard }
    else (b.goto .idle, stray)

/-- `sio_process_byte`, `active_device == DEV_MEMCARD` -/
def processCard (ctrl : BitVec 16) (tx : Byte) (b : Bus P) : Bus P × Reply :=
  if b.mc.state = .idle then
    if tx = 0x81#8 then mcProcessByte tx b
    else
      let b := { b with device := .none, selectedSlot := ctrlSlot ctrl }
      if tx = 0x01#8 then padProcessByte pad tx { b with device := .pad } else (b, stray)
  else mcProcessByte tx b

def sioProcessByte (ctrl : BitVec 16) (tx : Byte) (b : Bus P) : Bus P × Reply :=
  match b.device with
  | .none => processUnowned pad ctrl tx b
  | .pad => padProcessByte pad tx b
  | .memcard => processCard pad ctrl tx b

/-! ## 3. The port -/

/-- `sio_shift_*` and the one-byte buffer behind it -/
structure Shifter where
  active : Bool := false
  byte : Byte := 0#8
  remaining : Int := 0
  ackIrqEn : Bool := false
  buffered : Bool := false
  buffer : Byte := 0#8
  bufferAckIrqEn : Bool := false

def Shifter.clear (x : Shifter) : Shifter :=
  { x with active := false, remaining := 0, buffered := false, ackIrqEn := false
           bufferAckIrqEn := false }

/-- `sio_pending_ack`, `sio_ack_remaining`, `sio_pending_ack_irq_en` -/
structure PendingAck where
  pending : Bool := false
  remaining : Int := 0
  irqEn : Bool := false

/-- `SioBusOwner` -/
inductive Owner
  | none | card | pad | unknown
deriving DecidableEq, Repr

inductive Event
  | byte (b : Byte)
  | deselect
  | reset
deriving DecidableEq, Repr

structure State (P : Type) where
  rxData : Byte := 0xFF#8
  stat : BitVec 16 := 0x0005#16
  mode : BitVec 16 := 0#16
  ctrl : BitVec 16 := 0#16
  baud : BitVec 16 := 0#16
  ackVisibleReads : Nat := 0
  shifter : Shifter := {}
  ack : PendingAck := {}
  owner : Owner := .none
  byteIndex : BitVec 32 := 0#32
  /-- `g_sio_timing_active` -/
  timingActive : Bool := false
  /-- how often `IRQ_SIO0` was raised -/
  irqs : Nat := 0
  bus : Bus P
  trace : List Event := []

/-- `SIO_BAUD_CYCLES_DEFAULT` -/
def baudCycles : Int := 1088

/-- `SIO_ACK_CYCLES_DEFAULT` -/
def ackCycles : Int := 170

/-- `SIO_STAT_TX_RDY | SIO_STAT_TX_EMPTY` -/
def statTxIdle : BitVec 16 := 0x0005#16
def statRxRdy : BitVec 16 := 0x0002#16
def statAck : BitVec 16 := 0x0080#16
def statIrq : BitVec 16 := 0x0200#16

namespace State

/-- `sio_process_byte` as the port calls it -/
def process (tx : Byte) (s : State P) : State P :=
  let (bus, r) := sioProcessByte pad s.ctrl tx s.bus
  { s with
    bus := bus
    rxData := r.rx
    stat := s.stat ||| (if r.ack then statAck else 0#16) ||| (if r.rxRdy then statRxRdy else 0#16)
      ||| statTxIdle
    trace := s.trace ++ [.byte tx] }

/-- Nothing shifts, is buffered or waits to be acknowledged: the clock need not call. -/
def settle (s : State P) : State P :=
  if !s.shifter.active && !s.shifter.buffered && !s.ack.pending
  then { s with timingActive := false } else s

end State

open State

def sioFireAckIrq (s : State P) : State P :=
  let irqEnabled := s.ack.irqEn || s.ctrl.getLsbD 12
  let s := { s with
    stat := s.stat ||| statAck, ackVisibleReads := 2, ack := { s.ack with irqEn := false } }
  if irqEnabled then settle { s with stat := s.stat ||| statIrq, irqs := s.irqs + 1 } else s

/-- The end of `sio_handle_shift_complete`: the buffered byte follows -/
def promote (s : State P) : State P :=
  if s.shifter.buffered then
    { s with
      shifter := { s.shifter with
        byte := s.shifter.buffer, active := true, remaining := baudCycles
        ackIrqEn := s.shifter.bufferAckIrqEn, buffered := false, bufferAckIrqEn := false }
      stat := s.stat ||| 0x0004#16
      byteIndex := s.byteIndex + 1#32 }
  else { s with stat := s.stat ||| statTxIdle }

def sioHandleShiftComplete (s : State P) : State P :=
  let s := s.process pad s.shifter.byte
  -- `sio_consume_ack_event`
  let acked := s.stat.getLsbD 7
  let s := { s with
    shifter := { s.shifter with active := false }
    stat := (s.stat &&& ~~~statAck) ||| statRxRdy }
  let s := if acked then
      { s with ack := { pending := true, remaining := ackCycles, irqEn := s.shifter.ackIrqEn } }
    else s
  settle (promote s)

inductive Next
  | shift | ack | nothing
deriving DecidableEq, Repr

/-- The head of the loop of `sio_advance`: how many of `remaining` cycles pass before what -/
def nextEvent (s : State P) (remaining : Int) : Int × Next :=
  let e : Int × Next := (remaining, .nothing)
  let e := if s.shifter.active ∧ 0 < s.shifter.remaining ∧ s.shifter.remaining < e.1
    then (s.shifter.remaining, .shift) else e
  let e := if s.ack.pending ∧ 0 < s.ack.remaining ∧ s.ack.remaining < e.1
    then (s.ack.remaining, .ack) else e
  if s.shifter.active ∧ s.shifter.remaining ≤ 0 then (0, .shift)
  else if s.ack.pending ∧ s.ack.remaining ≤ 0 then (0, .ack)
  else e

/-- `dt` cycles pass on both countdowns. -/
def elapse (dt : Int) (s : State P) : State P :=
  { s with
    shifter := { s.shifter with
      remaining := if s.shifter.active then s.shifter.remaining - dt else s.shifter.remaining }
    ack := { s.ack with
      remaining := if s.ack.pending then s.ack.remaining - dt else s.ack.remaining } }

/-- `sio_pending_ack = 0` -/
def takeAck (s : State P) : State P := { s with ack := { s.ack with pending := false } }

/-- The loop of `sio_advance` and of `sio_tick`, for at most `transitions` more events -/
def pace (transitions : Nat) (remaining : Int) (s : State P) : State P :=
  match transitions with
  | 0 => s
  | k + 1 =>
    if remaining ≤ 0 then s
    else
      let dt := (nextEvent s remaining).1
      match (nextEvent s remaining).2 with
      | .shift => pace k (remaining - dt) (sioHandleShiftComplete pad (elapse dt s))
      | .ack => pace k (remaining - dt) (sioFireAckIrq (takeAck (elapse dt s)))
      | .nothing => elapse dt s

def maxTransitions : Nat := 8

def sioAdvance (cycles : Word) (s : State P) : State P :=
  if cycles = 0#32 then s
  else if s.timingActive then pace pad maxTransitions cycles.toInt s else s

def sioTick (cycles : Word) (s : State P) : State P := pace pad maxTransitions cycles.toInt s

/-! ## 4. Register accesses -/

/-- The shifter, its buffer and the acknowledge are dropped. -/
def killShifter (s : State P) : State P :=
  { s with shifter := s.shifter.clear, ack := {}, timingActive := false }

/-- `pad_fast_path`: this byte is for the pad -/
def padFastPath (tx : Byte) (s : State P) : Bool :=
  s.bus.device != .memcard && (s.bus.device == .pad || s.owner == .pad || tx == 0x01#8)

/-- A pad byte is answered at once; only its acknowledge is paced. -/
def padTx (tx : Byte) (s : State P) : State P :=
  let s := killShifter s
  let s := { s with owner := .pad, byteIndex := s.byteIndex + 1#32 }
  let s := s.process pad tx
  if s.stat.getLsbD 7 && s.ctrl.getLsbD 12 then
    { s with
      stat := s.stat &&& ~~~(statAck ||| statTxIdle)
      ack := { pending := true, remaining := baudCycles + ackCycles, irqEn := true }
      timingActive := true }
  else { s with stat := s.stat ||| statTxIdle }

/-- A card byte goes to the shifter, to the buffer behind it, or is dropped. -/
def shiftTx (tx : Byte) (s : State P) : State P :=
  let owner : Owner :=
    if tx = 0x81#8 then .card else if tx = 0x01#8 then .pad else .unknown
  let s := { s with
    owner := if s.byteIndex = 0#32 then owner else s.owner, byteIndex := s.byteIndex + 1#32 }
  if !s.shifter.active then
    { s with
      shifter := { s.shifter with
        byte := tx, active := true, remaining := baudCycles, ackIrqEn := s.ctrl.getLsbD 12 }
      stat := s.stat &&& ~~~statTxIdle
      timingActive := true }
  else if !s.shifter.buffered then
    { s with
      shifter := { s.shifter with
        buffer := tx, buffered := true, bufferAckIrqEn := s.ctrl.getLsbD 12 }
      stat := s.stat &&& ~~~0x0004#16 }
  else s

/-- `sio_write` of `SIO_TX_DATA` -/
def writeTx (tx : Byte) (s : State P) : State P :=
  if !s.ctrl.getLsbD 0 then s
  else if padFastPath tx s then padTx pad tx s
  else shiftTx tx s

/-- `SIO_CTRL_RESET` -/
def reset (s : State P) : State P :=
  { killShifter s with
    stat := statTxIdle
    mode := 0#16
    ctrl := 0#16
    baud := 0#16
    ackVisibleReads := 0
    owner := .none
    byteIndex := 0#32
    bus := { s.bus with
      mc := { s.bus.mc with state := .idle }
      mcSlots := fun i => { s.bus.mcSlots i with state := .idle }
      device := .none
      pad := pad.idle s.bus.pad }
    trace := s.trace ++ [.reset] }

/-- The volatile part of a slot is reset; its flag and its buffer are kept. -/
def McSlotState.deselect (m : McSlotState) : McSlotState :=
  { m with
    state := .idle, cmd := 0#8, sector := 0#16, sectorMsb := 0#8, sectorLsb := 0#8, dataIdx := 0
    checksum := 0#8 }

/-- `SIO_CTRL_SELECT` is taken back. -/
def deselect (s : State P) : State P :=
  let slots := if s.bus.device = .memcard
    then Function.update s.bus.mcSlots s.bus.mcSlot
      { s.bus.mcSlots s.bus.mcSlot with flag := s.bus.mc.flag }
    else s.bus.mcSlots
  { killShifter s with
    owner := .none
    byteIndex := 0#32
    stat := s.stat ||| statTxIdle
    bus := { s.bus with
      mc := { s.bus.mc with state := .idle }
      mcSlots := fun i => (slots i).deselect
      device := .none
      pad := pad.idle s.bus.pad }
    trace := s.trace ++ [.deselect] }

/-- `SIO_CTRL_TX_EN` is taken back. -/
def txOff (value : BitVec 16) (s : State P) : State P :=
  if s.shifter.active || s.shifter.buffered || s.ack.pending then
    let t := { killShifter s with stat := s.stat ||| statTxIdle }
    if value.getLsbD 1 then t else { t with owner := .none, byteIndex := 0#32 }
  else s

/-- `sio_write` of `SIO_CTRL` -/
def writeCtrl (value : BitVec 16) (s : State P) : State P :=
  let old := s.ctrl
  let s := { s with ctrl := value }
  let s := if value.getLsbD 4
    then { s with stat := s.stat &&& ~~~(statIrq ||| statAck), ackVisibleReads := 0 } else s
  let s := if value.getLsbD 6 then reset pad s else s
  let s := if !old.getLsbD 1 && value.getLsbD 1
    then { s with owner := .none, byteIndex := 0#32 } else s
  let s := if old.getLsbD 0 && !value.getLsbD 0 then txOff value s else s
  if old.getLsbD 1 && !value.getLsbD 1 then deselect pad s else s

def sioWrite (addr value : Word) (s : State P) : State P :=
  if addr = 0x1F801040#32 then writeTx pad (value.setWidth 8) s
  else if addr = 0x1F801048#32 then { s with mode := value.setWidth 16 }
  else if addr = 0x1F80104A#32 then writeCtrl pad (value.setWidth 16) s
  else if addr = 0x1F80104E#32 then { s with baud := value.setWidth 16 }
  else s

/-- `sio_read` of `SIO_STAT`: the acknowledge is seen by two reads -/
def readStat (s : State P) : State P :=
  if s.ackVisibleReads = 0 then s
  else if s.ackVisibleReads = 1
    then { s with ackVisibleReads := 0, stat := s.stat &&& ~~~statAck }
  else { s with ackVisibleReads := s.ackVisibleReads - 1 }

def sioRead (addr : Word) (s : State P) : Word × State P :=
  if addr = 0x1F801040#32 then
    (s.rxData.setWidth 32, { s with stat := s.stat &&& ~~~statRxRdy })
  else if addr = 0x1F801044#32 then (s.stat.setWidth 32, readStat s)
  else if addr = 0x1F801048#32 then (s.mode.setWidth 32, s)
  else if addr = 0x1F80104A#32 then (s.ctrl.setWidth 32, s)
  else if addr = 0x1F80104E#32 then (s.baud.setWidth 32, s)
  else (0#32, s)

/-! ## 5. Runs -/

/-- What reaches the port: the guest's accesses, and the clock -/
inductive Op
  | write (addr value : Word)
  | read (addr : Word)
  | advance (cycles : Word)
  | tick (cycles : Word)

def step (s : State P) : Op → State P
  | .write addr value => sioWrite pad addr value s
  | .read addr => (sioRead addr s).2
  | .advance cycles => sioAdvance pad cycles s
  | .tick cycles => sioTick pad cycles s

def run (s : State P) (ops : List Op) : State P := ops.foldl (step pad) s

end

end PsxRecomp.Sio
