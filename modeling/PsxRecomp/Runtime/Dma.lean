import PsxRecomp.Machine.Cpu

/-!
# `Runtime/Dma.lean` — the DMA controller

`runtime/src/dma.c`: the registers of the seven channels, `DPCR` and `DICR`, the transfers a `CHCR`
write starts, and `dma_advance`, which moves the asynchronous ones along with the guest clock. The
MDEC and CD channels (0, 1 and 3) move their words in `dma_advance`, as long as their device is ready;
the GPU and SPU channels (2 and 4) move them at once and only complete later; the ordering-table
channel (6) is done at once; channel 5 does not exist.

The devices and memory are what the controller's calls say they are (`Bus`), over any environment
`E`. A call of `psx_fatal_halt` is `none`.
-/

set_option autoImplicit false

namespace PsxRecomp.Dma

/-! ## 1. State -/

instance neZero_channels : NeZero 7 := ⟨by decide⟩

/-- `DMAChannel` -/
structure Channel where
  madr : Word := 0#32
  bcr : Word := 0#32
  chcr : Word := 0#32

namespace Channel

def busy (c : Channel) : Bool := c.chcr.getLsbD 24

def direction (c : Channel) : Bool := c.chcr.getLsbD 0

def addrStep (c : Channel) : Word := if c.chcr.getLsbD 1 then -4#32 else 4#32

def syncMode (c : Channel) : Word := (c.chcr >>> 9) &&& 3#32

def blockSize (c : Channel) : Nat := (c.bcr &&& 0xFFFF#32).toNat

def blockCount (c : Channel) : Nat := ((c.bcr >>> 16) &&& 0xFFFF#32).toNat

def startAddr (c : Channel) : Word := c.madr &&& 0x1FFFFC#32

/-- `chcr &= ~((1u << 24) | (1u << 28))` -/
def stop (c : Channel) : Channel := { c with chcr := c.chcr &&& 0xEEFFFFFF#32 }

end Channel

/-- `DMAAsyncChannel` -/
structure Async where
  active : Bool := false
  totalWords : Nat := 0
  remainingWords : Nat := 0
  cyclesAccum : Nat := 0

/-- `DMADelayedComplete` -/
structure Delayed where
  active : Bool := false
  totalWords : Nat := 0
  cyclesRemaining : Nat := 0

/-- The controller and what it is connected to. `async` holds `mdec_async` at 0 and 1 and
`cdrom_async` at 3; nothing else of it is used. -/
structure State (E : Type) where
  channels : Fin 7 → Channel := fun _ => {}
  async : Fin 7 → Async := fun _ => {}
  delayed : Fin 7 → Delayed := fun _ => {}
  dpcr : Word
  dicr : Word
  env : E

/-- `dma_init` -/
def reset {E : Type} (e : E) : State E := { dpcr := 0x07654321#32, dicr := 0#32, env := e }

/-- What the controller calls: RAM, the devices of its channels, and the interrupt line. -/
structure Bus (E : Type) where
  readWord : E → Word → Word
  /-- the channel that moves the word (`g_dma_cur_ch`), the address, and the word -/
  writeWord : E → Fin 7 → Word → Word → E
  mdecWriteReady : E → Bool
  mdecWriteWord : E → Word → E
  mdecReadReady : E → Bool
  mdecReadWord : E → Word × E
  gpuRead : E → Word × E
  /-- the word's address, and the word -/
  gpuWrite : E → Word → Word → E
  spuWrite : E → Word → E
  cdromReady : E → Bool
  cdromRead : E → Word × E
  cdromSectorWords : E → Nat
  markExecutable : E → Word → E
  irqRaise : E → Word → E

section
variable {E : Type} (bus : Bus E)

namespace State
variable (s : State E)

/-- `channel_enabled` -/
def enabled (ch : Fin 7) : Bool := s.dpcr.getLsbD (ch.val * 4 + 3)

def setChannel (ch : Fin 7) (c : Channel) : State E :=
  { s with channels := Function.update s.channels ch c }

def setAsync (ch : Fin 7) (a : Async) : State E :=
  { s with async := Function.update s.async ch a }

def setDelayed (ch : Fin 7) (d : Delayed) : State E :=
  { s with delayed := Function.update s.delayed ch d }

def setMadr (ch : Fin 7) (v : Word) : State E := s.setChannel ch { s.channels ch with madr := v }

end State

/-! ## 2. Completion -/

def dicrMasterFlag (v : Word) : Bool :=
  v.getLsbD 15 || (v.getLsbD 23 && (v &&& 0x7F000000#32) != 0#32)

/-- `raise_dma_irq_on_master_edge` -/
def raiseOnMasterEdge (before : Word) (s : State E) : State E :=
  if !dicrMasterFlag before && dicrMasterFlag s.dicr then
    { s with env := bus.irqRaise s.env ((s.dicr >>> 24) &&& 0x7F#32) }
  else s

/-- `channel_irq_flag_armed` -/
def irqFlagArmed (s : State E) (ch : Fin 7) : Bool :=
  s.dicr.getLsbD (16 + ch.val) && s.dicr.getLsbD 23

def completeTransfer (ch : Fin 7) (s : State E) : State E :=
  let s₁ := s.setChannel ch (s.channels ch).stop
  if irqFlagArmed s ch then
    raiseOnMasterEdge bus s.dicr { s₁ with dicr := s.dicr ||| (1#32 <<< (24 + ch.val)) }
  else s₁

def cancelAsyncTransfer (ch : Fin 7) (s : State E) : State E := (s.setAsync ch {}).setDelayed ch {}

def uint32Max : Nat := 2 ^ 32 - 1

def scheduleDelayedComplete (ch : Fin 7) (totalWords cyclesPerWord : Nat) (s : State E) : State E :=
  if totalWords = 0 ∨ cyclesPerWord = 0 then completeTransfer bus ch s
  else s.setDelayed ch ⟨true, totalWords, min (totalWords * cyclesPerWord) uint32Max⟩

def advanceDelayedComplete (cycles : Nat) (ch : Fin 7) (s : State E) : State E :=
  if !(s.delayed ch).active then s
  else if cycles < (s.delayed ch).cyclesRemaining then
    s.setDelayed ch
      { s.delayed ch with cyclesRemaining := (s.delayed ch).cyclesRemaining - cycles }
  else completeTransfer bus ch (s.setDelayed ch {})

/-! ## 3. Moving words -/

def nextAddr (step addr : Word) : Word := (addr + step) &&& 0x1FFFFC#32

/-- At most `n` words, for as long as the device is ready: how many, the address after them, and
what they did. -/
def moveWords (ready : E → Bool) (move : Word → E → E) (step : Word) :
    Nat → Word → E → Nat × Word × E
  | 0, addr, e => (0, addr, e)
  | n + 1, addr, e =>
    if ready e then
      let r := moveWords ready move step n (nextAddr step addr) (move addr e)
      (r.1 + 1, r.2)
    else (0, addr, e)

def transferWordCount (s : State E) (ch : Fin 7) : Nat :=
  let c := s.channels ch
  if ch = 3 ∧ c.blockSize = 0 then bus.cdromSectorWords s.env
  else
    let size := if c.blockSize = 0 then 0x10000 else c.blockSize
    if c.syncMode = 1#32 then size * (if c.blockCount = 0 then 1 else c.blockCount) else size

def dmaMaxTransferWords : Nat := 0x80000

/-- `validate_transfer_length` does not halt. -/
def lengthOk (s : State E) (ch : Fin 7) : Bool :=
  (ch = 2 ∧ (s.channels ch).syncMode = 2#32) ∨
    transferWordCount bus s ch ≤ dmaMaxTransferWords

/-! ## 4. The transfers -/

def startAsyncMdecTransfer (ch : Fin 7) (s : State E) : State E :=
  if (s.async ch).active then s
  else
    let n := transferWordCount bus s ch
    s.setAsync ch ⟨true, n, n, 0⟩

def startAsyncCdromTransfer (s : State E) : State E :=
  if (s.async 3).active then s
  else
    let n := transferWordCount bus s 3
    if n = 0 then completeTransfer bus 3 (cancelAsyncTransfer 3 s)
    else s.setAsync 3 ⟨true, n, n, 0⟩

/-- A GPU list: `k` nodes at most. Returns `MADR`, the words read, and the environment. -/
def gpuLinkedList : Nat → Word → Nat → E → Word × Nat × E
  | 0, addr, words, e => (addr, words, e)
  | k + 1, addr, words, e =>
    let header := bus.readWord e addr
    let n := ((header >>> 24) &&& 0xFF#32).toNat
    let r := moveWords (fun _ => true) (fun a e => bus.gpuWrite e a (bus.readWord e a)) 4#32 n
      (nextAddr 4#32 addr) e
    let next := header &&& 0xFFFFFF#32
    if next = 0xFFFFFF#32 then
      -- a list that ends with the last node the walker allows is taken for a cycle
      (if k = 0 then addr else 0x00FFFFFF#32, words + 1 + n, r.2.2)
    else gpuLinkedList k (next &&& 0x1FFFFC#32) (words + 1 + n) r.2.2

/-- `MAX_NODES`, and the one the walker visits before it compares -/
def gpuMaxNodes : Nat := 0x40001

def executeCh2Gpu (s : State E) : Nat × State E :=
  let c := s.channels 2
  let toRam := fun a e => bus.writeWord (bus.gpuRead e).2 2 a (bus.gpuRead e).1
  let fromRam := fun a e => bus.gpuWrite e a (bus.readWord e a)
  let blocks (move : Word → E → E) (n : Nat) : Nat × State E :=
    let r := moveWords (fun _ => true) move c.addrStep n c.startAddr s.env
    (n, { s.setMadr 2 r.2.1 with env := r.2.2 })
  if !c.direction then
    if c.syncMode = 1#32 then blocks toRam (c.blockSize * c.blockCount) else (0, s)
  else if c.syncMode = 1#32 then blocks fromRam (c.blockSize * c.blockCount)
  else if c.syncMode = 2#32 then
    let r := gpuLinkedList bus gpuMaxNodes c.startAddr 0 s.env
    (r.2.1, { s.setMadr 2 r.1 with env := r.2.2 })
  else blocks fromRam (if c.blockSize = 0 then 0x10000 else c.blockSize)

def executeCh3Cdrom (s : State E) : State E :=
  if (s.channels 3).direction then s.setChannel 3 (s.channels 3).stop
  else startAsyncCdromTransfer bus s

def executeCh4Spu (s : State E) : Nat × State E :=
  let c := s.channels 4
  let n := transferWordCount bus s 4
  let move := fun a e =>
    if c.direction then bus.spuWrite e (bus.readWord e a) else bus.writeWord e 4 a 0#32
  let r := moveWords (fun _ => true) move c.addrStep n c.startAddr s.env
  (n, { s.setMadr 4 r.2.1 with env := r.2.2 })

/-- The entries of an ordering table, each the address of the one before. -/
def clearTable : Nat → Word → E → E
  | 0, _, e => e
  | n + 1, addr, e =>
    let val := if n = 0 then 0x00FFFFFF#32 else (addr - 4#32) &&& 0x00FFFFFF#32
    clearTable n (nextAddr (-4#32) addr) (bus.writeWord e 6 addr val)

def executeCh6Otc (s : State E) : State E :=
  let c := s.channels 6
  let n := if c.blockSize = 0 then 0x10000 else c.blockSize
  completeTransfer bus 6 { s with env := clearTable bus n c.startAddr s.env }

/-- The `switch` of `try_execute` -/
def execute (ch : Fin 7) (s : State E) : Option (State E) :=
  match ch with
  | 0 => some (startAsyncMdecTransfer bus 0 s)
  | 1 => some (startAsyncMdecTransfer bus 1 s)
  | 2 => some (scheduleDelayedComplete bus 2 (executeCh2Gpu bus s).1 1 (executeCh2Gpu bus s).2)
  | 3 => some (executeCh3Cdrom bus s)
  | 4 => some (scheduleDelayedComplete bus 4 (executeCh4Spu bus s).1 48 (executeCh4Spu bus s).2)
  | 5 => none
  | 6 => some (executeCh6Otc bus s)

def tryExecute (ch : Fin 7) (s : State E) : Option (State E) :=
  if !(s.channels ch).busy then some s
  else if !s.enabled ch then some s
  else
    let c := s.channels ch
    let s := s.setChannel ch { c with chcr := c.chcr &&& 0xEFFFFFFF#32 }
    if !lengthOk bus s ch then none else execute bus ch s

/-! ## 5. The clock -/

/-- `cycles_accum += cycles`, without wrapping -/
def Async.charge (a : Async) (cycles : Nat) : Nat := min (a.cyclesAccum + cycles) uint32Max

/-- The part of a slice both asynchronous channels have in common: move what the accumulated cycles
allow, and end the transfer if that was all of it. -/
def advanceAsync (ready : E → Bool) (move : Word → E → E) (cyclesPerWord cycles : Nat) (ch : Fin 7)
    (s : State E) : State E :=
  let a := s.async ch
  let accum := a.charge cycles
  let r := moveWords ready move (s.channels ch).addrStep
    (min a.remainingWords (accum / cyclesPerWord)) (s.channels ch).startAddr s.env
  let s₁ := { s.setAsync ch { a with cyclesAccum := accum } with env := r.2.2 }
  if r.1 = 0 then s₁
  else
    let s₂ := (s₁.setMadr ch r.2.1).setAsync ch
      { a with remainingWords := a.remainingWords - r.1,
               cyclesAccum := accum - r.1 * cyclesPerWord }
    if a.remainingWords - r.1 = 0 then completeTransfer bus ch (cancelAsyncTransfer ch s₂) else s₂

/-- `advance_mdec_channel(0, …)` and `advance_mdec_channel(1, …)` -/
def advanceMdecChannel (ch : Fin 7) (cycles : Nat) (s : State E) : State E :=
  if !(s.async ch).active then s
  else if !(s.channels ch).busy || !s.enabled ch then s
  else if (ch = 0 ∧ (s.channels ch).direction = false) ∨
      (ch = 1 ∧ (s.channels ch).direction = true) then
    completeTransfer bus ch (cancelAsyncTransfer ch s)
  else if ch = 0 then
    if !bus.mdecWriteReady s.env then s
    else advanceAsync bus bus.mdecWriteReady
      (fun a e => bus.mdecWriteWord e (bus.readWord e a)) 1 cycles ch s
  else
    if !bus.mdecReadReady s.env then s
    else advanceAsync bus bus.mdecReadReady
      (fun a e => bus.writeWord (bus.mdecReadWord e).2 1 a (bus.mdecReadWord e).1) 14 cycles ch s

/-- `dma_cdrom_transfer_active` -/
def cdromTransferActive (s : State E) : Bool :=
  (s.async 3).active && (s.channels 3).busy && s.enabled 3 && !(s.channels 3).direction

/-- The CD part of `dma_advance`. Its test of the direction is never met: `cdromTransferActive` has
already asked. -/
def advanceCdrom (cycles : Nat) (s : State E) : State E :=
  if !cdromTransferActive s then s
  else if !bus.cdromReady s.env then s
  else advanceAsync bus bus.cdromReady
    (fun a e => bus.markExecutable (bus.writeWord (bus.cdromRead e).2 3 a (bus.cdromRead e).1) a)
    1 cycles 3 s

def dmaAdvance (cycles : Word) (s : State E) : State E :=
  if cycles = 0#32 then s
  else
    let n := cycles.toNat
    (List.finRange 7).foldl (fun s ch => advanceDelayedComplete bus n ch s)
      (advanceCdrom bus n (advanceMdecChannel bus 1 n (advanceMdecChannel bus 0 n s)))

/-! ## 6. Register writes -/

def merge (old val mask : Word) : Word := (old &&& ~~~mask) ||| (val &&& mask)

inductive Reg where
  | dpcr
  | dicr
  | madr (ch : Fin 7)
  | bcr (ch : Fin 7)
  | chcr (ch : Fin 7)
  /-- channel offset `0x0C`, and everything the block leaves open -/
  | none
  deriving DecidableEq

/-- The decoding of an address: channel `ch` is at `0x1F801080 + ch * 0x10`. -/
def Reg.ofAddr (addr : Word) : Reg :=
  let a := addr.toNat
  if a = 0x1F8010F0 then .dpcr
  else if a = 0x1F8010F4 then .dicr
  else if 0x1F801080 ≤ a ∧ a ≤ 0x1F8010EF then
    if h : (a - 0x1F801080) / 0x10 < 7 then
      match (a - 0x1F801080) % 0x10 with
      | 0x00 => .madr ⟨_, h⟩
      | 0x04 => .bcr ⟨_, h⟩
      | 0x08 => .chcr ⟨_, h⟩
      | _ => .none
    else .none
  else .none

def dicrWriteMask : Word := 0x00FF807F#32
def dicrResetMask : Word := 0x7F000000#32

/-- The `CHCR` case of `dma_write_masked` -/
def writeChcr (ch : Fin 7) (val mask : Word) (s : State E) : Option (State E) :=
  let c := s.channels ch
  let s₁ := s.setChannel ch { c with chcr := merge c.chcr val mask }
  if mask.getLsbD 24 then
    if (s₁.channels ch).busy then tryExecute bus ch s₁ else some (cancelAsyncTransfer ch s₁)
  else some s₁

def dmaWriteMasked (addr val mask : Word) (s : State E) : Option (State E) :=
  match Reg.ofAddr addr with
  | .dpcr => some { s with dpcr := merge s.dpcr val mask }
  | .dicr =>
    let dicr := merge s.dicr val (dicrWriteMask &&& mask) &&& ~~~(val &&& (dicrResetMask &&& mask))
    some (raiseOnMasterEdge bus s.dicr { s with dicr := dicr })
  | .madr ch => some (s.setMadr ch (merge (s.channels ch).madr val mask))
  | .bcr ch =>
    some (s.setChannel ch { s.channels ch with bcr := merge (s.channels ch).bcr val mask })
  | .chcr ch => writeChcr bus ch val mask s
  | .none => some s

section
variable {bus} {addr val mask : Word} {s : State E}

theorem dmaWriteMasked_dpcr (h : Reg.ofAddr addr = .dpcr) :
    dmaWriteMasked bus addr val mask s = some { s with dpcr := merge s.dpcr val mask } := by
  simp [dmaWriteMasked, h]

theorem dmaWriteMasked_chcr {ch : Fin 7} (h : Reg.ofAddr addr = .chcr ch) :
    dmaWriteMasked bus addr val mask s = writeChcr bus ch val mask s := by
  simp [dmaWriteMasked, h]

end

end

end PsxRecomp.Dma
