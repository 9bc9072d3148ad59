import PsxRecomp.Lib.Bytes
import PsxRecomp.Runtime.Dicr
import PsxRecomp.Runtime.SioEvents

/-!
# `Runtime/Mmio.lean` — registers in words, halfwords and bytes

`mmio_read32`, `mmio_read16`, `mmio_read8` and the three writes of `runtime/src/memory.c` each have
their own address ranges and their own way to a byte of a register. This module is about the registers
that simply hold a value: mode, control and baud rate of the serial port, the memory-control block, the
RAM size, `I_MASK`, and the registers of the DMA channels. An access to part of one of them is a `Lane`.

The other devices are what these functions call them as (`Periphery`). A write that starts a DMA
transfer goes on in the device; what it does to the registers of the channel is the transfer's
(`Starts`).
-/

set_option autoImplicit false

open Function

namespace PsxRecomp.Mmio

open Words BitVec

/-! ## 1. The registers and the devices -/

/-- `i_mask`: eleven bits -/
structure IMask where
  val : Word
  small : val &&& 0x7FF#32 = val

def IMask.ofWord (w : Word) : IMask :=
  ⟨w &&& 0x7FF#32, by rw [BitVec.and_assoc, BitVec.and_self]⟩

/-- `P` is the pad of the serial port, `E` is everything behind the DMA controller. -/
structure State (P E : Type) where
  sio : Sio.State P
  memCtrl : Fin 16 → Word
  ramSize : Word
  iMask : IMask
  dma : Dma.State E

structure Periphery (E : Type) where
  iStat : E → Word
  /-- `interrupt_write_stat_masked`: value and mask -/
  writeStat : Word → Word → E → E
  timersRead : Word → E → Word × E
  timersWrite : Word → Word → E → E
  cdromRead : Word → E → Word × E
  cdromWrite : Word → Word → E → E
  gpuReadGpuread : E → Word × E
  gpuReadGpustat : E → Word × E
  gpuWriteGp0 : Word → E → E
  gpuWriteGp1 : Word → E → E
  mdecRead : Word → E → Word × E
  mdecWrite : Word → Word → E → E
  spuRead : Word → E → Word × E
  spuWrite : Word → Word → E → E

inductive Block
  | memCtrl (i : Fin 16) | sio | ramSize | iStat | iMask | dma | timers | cdrom | gpuread | gpustat
  | mdec | spu | expansion | openBus
deriving DecidableEq

/-- The ranges of `mmio_read32` and `mmio_write32` -/
def decode32 (a : Nat) : Block :=
  if h : 0x1F801000 ≤ a ∧ a ≤ 0x1F80103C then .memCtrl ⟨(a - 0x1F801000) / 4, by omega⟩
  else if 0x1F801040 ≤ a ∧ a ≤ 0x1F80105F then .sio
  else if a = 0x1F801060 then .ramSize
  else if a = 0x1F801070 then .iStat
  else if a = 0x1F801074 then .iMask
  else if 0x1F801080 ≤ a ∧ a ≤ 0x1F8010FF then .dma
  else if 0x1F801100 ≤ a ∧ a ≤ 0x1F80112F then .timers
  else if 0x1F801800 ≤ a ∧ a ≤ 0x1F801803 then .cdrom
  else if a = 0x1F801810 then .gpuread
  else if a = 0x1F801814 then .gpustat
  else if a = 0x1F801820 ∨ a = 0x1F801824 then .mdec
  else if 0x1F801C00 ≤ a ∧ a ≤ 0x1F801FFF then .spu
  else if 0x1F802000 ≤ a ∧ a ≤ 0x1F802FFF then .expansion
  else .openBus

/-- The ranges of `mmio_read16` and `mmio_write16` -/
def decode16 (a : Nat) : Block :=
  if h : 0x1F801000 ≤ a ∧ a ≤ 0x1F80103F then .memCtrl ⟨(a - 0x1F801000) / 4, by omega⟩
  else if 0x1F801060 ≤ a ∧ a ≤ 0x1F801063 then .ramSize
  else if 0x1F801040 ≤ a ∧ a ≤ 0x1F80105F then .sio
  else if 0x1F801070 ≤ a ∧ a ≤ 0x1F801072 then .iStat
  else if 0x1F801074 ≤ a ∧ a ≤ 0x1F801076 then .iMask
  else if 0x1F801100 ≤ a ∧ a ≤ 0x1F80112F then .timers
  else if 0x1F801080 ≤ a ∧ a ≤ 0x1F8010FF then .dma
  else if 0x1F801820 ≤ a ∧ a ≤ 0x1F801827 then .mdec
  else if 0x1F801C00 ≤ a ∧ a ≤ 0x1F801FFF then .spu
  else .openBus

/-- The ranges of `mmio_read8`: it has no timers, and half of the serial port's block -/
def decodeRead8 (a : Nat) : Block :=
  if h : 0x1F801000 ≤ a ∧ a ≤ 0x1F80103F then .memCtrl ⟨(a - 0x1F801000) / 4, by omega⟩
  else if 0x1F801060 ≤ a ∧ a ≤ 0x1F801063 then .ramSize
  else if 0x1F801070 ≤ a ∧ a ≤ 0x1F801077 then if a < 0x1F801074 then .iStat else .iMask
  else if 0x1F801040 ≤ a ∧ a ≤ 0x1F80104F then .sio
  else if 0x1F801080 ≤ a ∧ a ≤ 0x1F8010FF then .dma
  else if 0x1F801820 ≤ a ∧ a ≤ 0x1F801827 then .mdec
  else if 0x1F801800 ≤ a ∧ a ≤ 0x1F801803 then .cdrom
  else if 0x1F802000 ≤ a ∧ a ≤ 0x1F802FFF then .expansion
  else .openBus

/-- The ranges of `mmio_write8` -/
def decodeWrite8 (a : Nat) : Block :=
  if h : 0x1F801000 ≤ a ∧ a ≤ 0x1F80103F then .memCtrl ⟨(a - 0x1F801000) / 4, by omega⟩
  else if 0x1F801060 ≤ a ∧ a ≤ 0x1F801063 then .ramSize
  else if 0x1F801070 ≤ a ∧ a ≤ 0x1F801073 then .iStat
  else if 0x1F801074 ≤ a ∧ a ≤ 0x1F801077 then .iMask
  else if 0x1F801040 ≤ a ∧ a ≤ 0x1F80105F then .sio
  else if 0x1F801080 ≤ a ∧ a ≤ 0x1F8010FF then .dma
  else if 0x1F801100 ≤ a ∧ a ≤ 0x1F80112F then .timers
  else if 0x1F801820 ≤ a ∧ a ≤ 0x1F801827 then .mdec
  else if 0x1F801800 ≤ a ∧ a ≤ 0x1F801803 then .cdrom
  else if 0x1F802000 ≤ a ∧ a ≤ 0x1F802FFF then .expansion
  else .openBus

/-! ## 2. Accesses -/

def dmaRead {E : Type} (addr : Word) (s : Dma.State E) : Word :=
  match Dma.Reg.ofAddr addr with
  | .dpcr => s.dpcr
  | .dicr => Dma.Dicr.dicrReadValue s.dicr
  | .madr ch => (s.channels ch).madr
  | .bcr ch => (s.channels ch).bcr
  | .chcr ch => (s.channels ch).chcr
  | .none => 0#32

/-- `addr & ~3u` -/
def alignDown (addr : Word) : Word := addr &&& ~~~3#32

/-- `8u * (addr & 3u)` -/
def byteShift (addr : Word) : Nat := 8 * (addr.toNat % 4)

/-- `8u * (addr & 2u)`, `(addr & 2u) ? 16u : 0u` -/
def halfShift (addr : Word) : Nat := 8 * (addr.toNat / 2 % 2 * 2)

def byteLane (addr v : Word) : BitVec 8 := (v >>> byteShift addr).setWidth 8

def halfLane (addr v : Word) : BitVec 16 := (v >>> halfShift addr).setWidth 16

/-- `(old & ~(0xFFu << shift)) | ((uint32_t)val << shift)` -/
def putByte (addr old : Word) (val : BitVec 8) : Word :=
  (old &&& ~~~(0xFF#32 <<< byteShift addr)) ||| (val.setWidth 32 <<< byteShift addr)

/-- `(old & ~(0xFFFFu << shift)) | ((uint32_t)val << shift)` -/
def putHalf (addr old : Word) (val : BitVec 16) : Word :=
  (old &&& ~~~(0xFFFF#32 <<< halfShift addr)) ||| (val.setWidth 32 <<< halfShift addr)

/-- `interrupt_write_mask_masked` -/
def writeMask (m : IMask) (val mask : Word) : IMask := .ofWord (Dma.merge m.val val mask)

section
variable {P E : Type} (dev : Periphery E) (pad : Sio.Pad P) (bus : Dma.Bus E)

def State.ask (s : State P E) (f : E → Word × E) : Word × State P E :=
  ((f s.dma.env).1, { s with dma := { s.dma with env := (f s.dma.env).2 } })

def State.tell (s : State P E) (f : E → E) : State P E :=
  { s with dma := { s.dma with env := f s.dma.env } }

def State.setMemCtrl (s : State P E) (i : Fin 16) (v : Word) : State P E :=
  { s with memCtrl := Function.update s.memCtrl i v }

/-- `sio_read` -/
def State.readSio (s : State P E) (addr : Word) : Word × State P E :=
  ((Sio.sioRead addr s.sio).1, { s with sio := (Sio.sioRead addr s.sio).2 })

/-- `sio_write` -/
def State.writeSio (s : State P E) (addr value : Word) : State P E :=
  { s with sio := Sio.sioWrite pad addr value s.sio }

/-- `dma_write_masked` -/
def State.writeDma (s : State P E) (addr val mask : Word) : Option (State P E) :=
  (Dma.dmaWriteMasked bus addr val mask s.dma).map fun d => { s with dma := d }

def mmioRead32 (addr : Word) (s : State P E) : Word × State P E :=
  match decode32 addr.toNat with
  | .memCtrl i => (s.memCtrl i, s)
  | .sio => s.readSio addr
  | .ramSize => (s.ramSize, s)
  | .iStat => (dev.iStat s.dma.env, s)
  | .iMask => (s.iMask.val, s)
  | .dma => (dmaRead addr s.dma, s)
  | .timers => s.ask (dev.timersRead addr)
  | .cdrom => s.ask (dev.cdromRead addr)
  | .gpuread => s.ask dev.gpuReadGpuread
  | .gpustat => s.ask dev.gpuReadGpustat
  | .mdec => s.ask (dev.mdecRead addr)
  | .spu => s.ask (dev.spuRead addr)
  | .expansion | .openBus => (0#32, s)

def mmioWrite32 (addr val : Word) (s : State P E) : Option (State P E) :=
  match decode32 addr.toNat with
  | .memCtrl i => some (s.setMemCtrl i val)
  | .sio => some (s.writeSio pad addr val)
  | .ramSize => some { s with ramSize := val }
  | .iStat => some (s.tell (dev.writeStat val 0xFFFFFFFF#32))
  | .iMask => some { s with iMask := writeMask s.iMask val 0xFFFFFFFF#32 }
  | .dma => s.writeDma bus addr val 0xFFFFFFFF#32
  | .timers => some (s.tell (dev.timersWrite addr val))
  | .cdrom => some (s.tell (dev.cdromWrite addr val))
  | .gpuread => some (s.tell (dev.gpuWriteGp0 val))
  | .gpustat => some (s.tell (dev.gpuWriteGp1 val))
  | .mdec => some (s.tell (dev.mdecWrite addr val))
  | .spu => some (s.tell (dev.spuWrite addr val))
  | .expansion | .openBus => some s

def mmioRead16 (addr : Word) (s : State P E) : BitVec 16 × State P E :=
  match decode16 addr.toNat with
  | .memCtrl i => (halfLane addr (s.memCtrl i), s)
  | .ramSize => (halfLane addr s.ramSize, s)
  | .sio => ((s.readSio addr).1.setWidth 16, (s.readSio addr).2)
  | .iStat => (halfLane addr (dev.iStat s.dma.env), s)
  | .iMask => (halfLane addr s.iMask.val, s)
  | .timers => ((s.ask (dev.timersRead addr)).1.setWidth 16, (s.ask (dev.timersRead addr)).2)
  | .dma => (halfLane addr (dmaRead (alignDown addr) s.dma), s)
  | .mdec =>
    let r := s.ask (dev.mdecRead (alignDown addr))
    (halfLane addr r.1, r.2)
  | .spu => ((s.ask (dev.spuRead addr)).1.setWidth 16, (s.ask (dev.spuRead addr)).2)
  | _ => (0#16, s)

def mmioWrite16 (addr : Word) (val : BitVec 16) (s : State P E) : Option (State P E) :=
  let word : Word := val.setWidth 32
  match decode16 addr.toNat with
  | .memCtrl i => some (s.setMemCtrl i (putHalf addr (s.memCtrl i) val))
  | .ramSize => some { s with ramSize := putHalf addr s.ramSize val }
  | .sio => some (s.writeSio pad addr word)
  | .iStat => some (s.tell (dev.writeStat (word <<< halfShift addr) (0xFFFF#32 <<< halfShift addr)))
  | .iMask =>
    some { s with iMask := writeMask s.iMask (word <<< halfShift addr) (0xFFFF#32 <<< halfShift addr) }
  | .timers => some (s.tell (dev.timersWrite addr word))
  | .dma => s.writeDma bus (alignDown addr) (word <<< halfShift addr) (0xFFFF#32 <<< halfShift addr)
  | .mdec =>
    let r := s.ask (dev.mdecRead (alignDown addr))
    some (r.2.tell (dev.mdecWrite (alignDown addr) (putHalf addr r.1 val)))
  | .spu => some (s.tell (dev.spuWrite addr word))
  | _ => some s

def mmioRead8 (addr : Word) (s : State P E) : BitVec 8 × State P E :=
  match decodeRead8 addr.toNat with
  | .memCtrl i => (byteLane addr (s.memCtrl i), s)
  | .ramSize => (byteLane addr s.ramSize, s)
  | .iStat => (byteLane addr (dev.iStat s.dma.env), s)
  | .iMask => (byteLane addr s.iMask.val, s)
  -- the lowest byte of what is at the address rounded down to four
  | .sio => ((s.readSio (alignDown addr)).1.setWidth 8, (s.readSio (alignDown addr)).2)
  | .dma => (byteLane addr (dmaRead (alignDown addr) s.dma), s)
  | .mdec =>
    let r := s.ask (dev.mdecRead (alignDown addr))
    (byteLane addr r.1, r.2)
  | .cdrom => ((s.ask (dev.cdromRead addr)).1.setWidth 8, (s.ask (dev.cdromRead addr)).2)
  | _ => (0#8, s)

def mmioWrite8 (addr : Word) (val : BitVec 8) (s : State P E) : Option (State P E) :=
  let word : Word := val.setWidth 32
  match decodeWrite8 addr.toNat with
  | .memCtrl i => some (s.setMemCtrl i (putByte addr (s.memCtrl i) val))
  | .ramSize => some { s with ramSize := putByte addr s.ramSize val }
  | .iStat => some (s.tell (dev.writeStat (word <<< byteShift addr) (0xFF#32 <<< byteShift addr)))
  | .iMask =>
    some { s with iMask := writeMask s.iMask (word <<< byteShift addr) (0xFF#32 <<< byteShift addr) }
  -- the register at the address rounded down to four is written as a whole
  | .sio => some (s.writeSio pad (alignDown addr) word)
  | .dma => s.writeDma bus (alignDown addr) (word <<< byteShift addr) (0xFF#32 <<< byteShift addr)
  | .timers =>
    let r := s.ask (dev.timersRead (alignDown addr))
    some (r.2.tell (dev.timersWrite (alignDown addr) (putByte addr r.1 val)))
  | .mdec =>
    let r := s.ask (dev.mdecRead (alignDown addr))
    some (r.2.tell (dev.mdecWrite (alignDown addr) (putByte addr r.1 val)))
  | .cdrom => some (s.tell (dev.cdromWrite addr word))
  | _ => some s

end

/-! ## 3. Registers and lanes -/

inductive Reg
  | sioMode | sioCtrl | sioBaud | memCtrl (i : Fin 16) | ramSize | iMask
  | madr (ch : Fin 7) | bcr (ch : Fin 7) | chcr (ch : Fin 7)
deriving DecidableEq

open Reg

namespace Reg

def base : Reg → Nat
  | .sioMode => 0x1F801048
  | .sioCtrl => 0x1F80104A
  | .sioBaud => 0x1F80104E
  | .memCtrl i => 0x1F801000 + 4 * i
  | .ramSize => 0x1F801060
  | .iMask => 0x1F801074
  | .madr ch => 0x1F801080 + 16 * ch
  | .bcr ch => 0x1F801084 + 16 * ch
  | .chcr ch => 0x1F801088 + 16 * ch

def bytes : Reg → Nat
  | .sioMode | .sioCtrl | .sioBaud => 2
  | _ => 4

def writable : Reg → Word
  | .sioMode | .sioCtrl | .sioBaud => 0xFFFF#32
  | .iMask => 0x7FF#32
  | _ => 0xFFFFFFFF#32

def addr (r : Reg) : Word := BitVec.ofNat 32 r.base

def block : Reg → Block
  | .sioMode | .sioCtrl | .sioBaud => .sio
  | .memCtrl i => .memCtrl i
  | .ramSize => .ramSize
  | .iMask => .iMask
  | .madr _ | .bcr _ | .chcr _ => .dma

end Reg

inductive Width
  | byte | half
deriving DecidableEq

def Width.bytes : Width → Nat
  | .byte => 1
  | .half => 2

/-- A byte or a halfword of a register, which an access can address -/
structure Lane (r : Reg) where
  width : Width
  off : Nat
  aligned : off % width.bytes = 0
  fits : off + width.bytes ≤ r.bytes

section
variable {P E : Type} {r : Reg} (dev : Periphery E) (pad : Sio.Pad P) (bus : Dma.Bus E)

def Lane.addr (l : Lane r) : Word := BitVec.ofNat 32 (r.base + l.off)

def Lane.Has (l : Lane r) (j : Nat) : Prop := l.off ≤ j ∧ j < l.off + l.width.bytes

instance (l : Lane r) (j : Nat) : Decidable (l.Has j) := inferInstanceAs (Decidable (_ ∧ _))

def value (r : Reg) (s : State P E) : Word :=
  if r.bytes = 4 then (mmioRead32 dev r.addr s).1 else (mmioRead16 dev r.addr s).1.setWidth 32

def Lane.read (l : Lane r) (s : State P E) : Word :=
  match l.width with
  | .byte => (mmioRead8 dev l.addr s).1.setWidth 32
  | .half => (mmioRead16 dev l.addr s).1.setWidth 32

def Lane.write (l : Lane r) (v : Word) (s : State P E) : Option (State P E) :=
  match l.width with
  | .byte => mmioWrite8 dev pad bus l.addr (v.setWidth 8) s
  | .half => mmioWrite16 dev pad bus l.addr (v.setWidth 16) s

def ReadCoherent (l : Lane r) (s : State P E) : Prop :=
  ∀ k < l.width.bytes, byteOf (l.read dev s) k = byteOf (value dev r s) (l.off + k)

/-- A write changes the bytes of the lane, as far as the register has them, and nothing else. -/
def WriteCoherent (l : Lane r) (v : Word) (s : State P E) : Prop :=
  ∃ s', l.write dev pad bus v s = some s' ∧ (∀ q, q ≠ r → value dev q s' = value dev q s) ∧
    ∀ j < 4, byteOf (value dev r s') j =
      if l.Has j then byteOf v (j - l.off) &&& byteOf r.writable j else byteOf (value dev r s) j

/-! ## 4. What the accesses denote -/

def Reg.get (s : State P E) : Reg → Word
  | .sioMode => s.sio.mode.setWidth 32
  | .sioCtrl => s.sio.ctrl.setWidth 32
  | .sioBaud => s.sio.baud.setWidth 32
  | .memCtrl i => s.memCtrl i
  | .ramSize => s.ramSize
  | .iMask => s.iMask.val
  | .madr ch => (s.dma.channels ch).madr
  | .bcr ch => (s.dma.channels ch).bcr
  | .chcr ch => (s.dma.channels ch).chcr

def Reg.Covers (r : Reg) (a : Nat) : Prop := r.base ≤ a ∧ a < r.base + r.bytes

theorem Reg.Covers.lt {a : Nat} (h : r.Covers a) : a < 2 ^ 32 := by
  obtain ⟨-, hlt⟩ := h
  cases r <;> simp only [base, bytes] at hlt <;> omega

theorem Lane.covers (l : Lane r) : r.Covers (r.base + l.off) := by
  obtain ⟨w, off, -, hfits⟩ := l
  have hpos : 0 < w.bytes := by cases w <;> decide
  exact ⟨Nat.le_add_right _ _, by dsimp only at hfits ⊢; omega⟩

theorem Lane.toNat_addr (l : Lane r) : l.addr.toNat = r.base + l.off := by
  rw [Lane.addr, toNat_ofNat, Nat.mod_eq_of_lt l.covers.lt]

theorem Reg.covers_base (r : Reg) : r.Covers r.base :=
  ⟨le_rfl, by cases r <;> simp [bytes]⟩

theorem Reg.toNat_addr (r : Reg) : r.addr.toNat = r.base := by
  rw [addr, toNat_ofNat, Nat.mod_eq_of_lt r.covers_base.lt]

variable {b : Block}

section
variable {a : Nat}

/-- The ranges that all the functions have in common: the first bytes of a register, up to `n` of them -/
def Block.Range (n a : Nat) : Block → Prop
  | .memCtrl i => 0x1F801000 + 4 * i ≤ a ∧ a < 0x1F801000 + 4 * i + n
  | .sio => 0x1F801040 ≤ a ∧ a ≤ 0x1F80104F
  | .ramSize => 0x1F801060 ≤ a ∧ a < 0x1F801060 + n
  | .iMask => 0x1F801074 ≤ a ∧ a < 0x1F801074 + n
  | .dma => 0x1F801080 ≤ a ∧ a ≤ 0x1F8010FF
  | _ => False

theorem Reg.range_block {n : Nat} (h : r.Covers a) (hlt : a < r.base + n) : r.block.Range n a := by
  obtain ⟨hle, hbytes⟩ := h
  cases r <;> simp only [base, bytes, block, Block.Range] at hle hlt hbytes ⊢ <;> omega

/-- The last byte of `I_MASK` is not in the halfword ranges; no halfword begins there. -/
theorem decode_range {n : Nat} (h : b.Range n a) : (n = 1 → decode32 a = b) ∧ (n = 3 → decode16 a = b) ∧
    (n = 4 → decodeRead8 a = b) ∧ (n = 4 → decodeWrite8 a = b) := by
  unfold decode32 decode16 decodeRead8 decodeWrite8
  cases b with
  | memCtrl i =>
    refine ⟨?_, ?_, ?_, ?_⟩ <;> rintro rfl <;> simp only [Block.Range] at h <;> rw [dif_pos (by omega)]
    all_goals exact congrArg Block.memCtrl (Fin.ext (by dsimp only; omega))
  | _ =>
    refine ⟨?_, ?_, ?_, ?_⟩ <;> rintro rfl <;> simp only [Block.Range] at h
    all_goals simp (disch := omega) only [dif_neg, if_neg, if_pos]

end

theorem Reg.bytes_cases (r : Reg) : r.bytes = 4 ∨ r.bytes = 2 := by cases r <;> simp [bytes]

theorem Reg.bytes_le (r : Reg) : r.bytes ≤ 4 := by
  have hbytes := r.bytes_cases
  omega

theorem Reg.decode32_addr (r : Reg) : decode32 r.addr.toNat = r.block := by
  rw [r.toNat_addr]
  exact (decode_range (range_block r.covers_base (Nat.lt_succ_self _))).1 rfl

theorem Lane.decode16_addr (l : Lane r) (h : l.width = .half) : decode16 l.addr.toNat = r.block := by
  have hlt := l.fits
  have hbytes := r.bytes_le
  rw [h, show Width.half.bytes = 2 from rfl] at hlt
  rw [l.toNat_addr]
  exact (decode_range (range_block l.covers (by omega))).2.1 rfl

theorem Lane.decode8_addr (l : Lane r) :
    decodeRead8 l.addr.toNat = r.block ∧ decodeWrite8 l.addr.toNat = r.block := by
  have hlt := l.covers.2
  have hbytes := r.bytes_le
  rw [l.toNat_addr]
  obtain ⟨-, -, hread, hwrite⟩ := decode_range (n := 4) (range_block l.covers (by omega))
  exact ⟨hread rfl, hwrite rfl⟩

def Reg.toDma : Reg → Dma.Reg
  | .madr ch => .madr ch
  | .bcr ch => .bcr ch
  | .chcr ch => .chcr ch
  | _ => .none

theorem ofAddr_dma : ∀ (ch : Fin 7) (k : Fin 4),
    Dma.Reg.ofAddr (alignDown (BitVec.ofNat 32 (0x1F801080 + 16 * ch + k))) = .madr ch ∧
      Dma.Reg.ofAddr (alignDown (BitVec.ofNat 32 (0x1F801084 + 16 * ch + k))) = .bcr ch ∧
      Dma.Reg.ofAddr (alignDown (BitVec.ofNat 32 (0x1F801088 + 16 * ch + k))) = .chcr ch := by
  decide

theorem Reg.ofAddr_addr (h : r.block = .dma) : Dma.Reg.ofAddr r.addr = r.toDma := by
  cases r with
  | madr ch | bcr ch | chcr ch =>
    revert ch
    decide
  | _ => cases h

theorem Lane.ofAddr_addr (l : Lane r) (h : r.block = .dma) :
    Dma.Reg.ofAddr (alignDown l.addr) = r.toDma := by
  have hlt := l.covers.2
  have hbytes := r.bytes_le
  cases r with
  | madr ch => exact (ofAddr_dma ch ⟨l.off, by omega⟩).1
  | bcr ch => exact (ofAddr_dma ch ⟨l.off, by omega⟩).2.1
  | chcr ch => exact (ofAddr_dma ch ⟨l.off, by omega⟩).2.2
  | _ => cases h

/-! ## 5. Lanes of a word -/

theorem Reg.base_mod (h : r.bytes = 4) : r.base % 4 = 0 := by
  cases r <;> simp only [bytes, base] at h ⊢ <;> omega

theorem Lane.byteShift_addr (l : Lane r) (h : r.bytes = 4) : byteShift l.addr = 8 * l.off := by
  have hbase := base_mod h
  have hlt := l.covers.2
  rw [byteShift, l.toNat_addr]
  omega

theorem Lane.halfShift_addr (l : Lane r) (h : r.bytes = 4) (hw : l.width = .half) :
    halfShift l.addr = 8 * l.off := by
  have hbase := base_mod h
  have hlt := l.covers.2
  have haligned := l.aligned
  rw [hw] at haligned
  simp only [Width.bytes] at haligned
  rw [halfShift, l.toNat_addr]
  omega

theorem dmaRead_eq {addr : Word} (h : Dma.Reg.ofAddr addr = r.toDma) (hr : r.block = .dma)
    (s : State P E) : dmaRead addr s.dma = r.get s := by
  unfold dmaRead
  rw [h]
  cases r with
  | madr ch | bcr ch | chcr ch => rfl
  | _ => cases hr

section
variable {dev} {s : State P E}

theorem mmioRead32_word (h : r.bytes = 4) : (mmioRead32 dev r.addr s).1 = r.get s := by
  unfold mmioRead32
  rw [r.decode32_addr]
  cases r with
  | sioMode | sioCtrl | sioBaud => cases h
  | memCtrl i | ramSize | iMask => rfl
  | madr ch | bcr ch | chcr ch => exact dmaRead_eq (ofAddr_addr rfl) rfl s

theorem read_word {l : Lane r} (h : r.bytes = 4) : l.read dev s =
    match l.width with
    | .byte => (byteLane l.addr (r.get s)).setWidth 32
    | .half => (halfLane l.addr (r.get s)).setWidth 32 := by
  unfold Lane.read
  split <;> rename_i hw
  case' h_1 => rw [mmioRead8, l.decode8_addr.1]
  case' h_2 => rw [mmioRead16, l.decode16_addr hw]
  all_goals
    cases r with
    | sioMode | sioCtrl | sioBaud => cases h
    | memCtrl i | ramSize | iMask => rfl
    | madr ch | bcr ch | chcr ch => rw [← dmaRead_eq (l.ofAddr_addr rfl) rfl s]; rfl

theorem mmioRead16_sio (h : r.bytes = 2) : (mmioRead16 dev r.addr s).1.setWidth 32 = r.get s := by
  have hread (x : BitVec 16) : ((x.setWidth 32).setWidth 16).setWidth 32 = x.setWidth 32 :=
    congrArg (setWidth 32) (setWidth_setWidth_self (show 16 ≤ 32 by decide) x)
  cases r with
  | sioMode => exact hread s.sio.mode
  | sioCtrl => exact hread s.sio.ctrl
  | sioBaud => exact hread s.sio.baud
  | _ => cases h

end

theorem value_eq (r : Reg) (s : State P E) : value dev r s = r.get s := by
  unfold value
  obtain h | h := r.bytes_cases
  · rw [if_pos h, mmioRead32_word h]
  · rw [if_neg (by omega), mmioRead16_sio h]

/-! ## 6. Bytes of lanes -/

variable {j : Nat}

theorem byteOf_setWidth8 (x : BitVec 8) : byteOf (x.setWidth 32) j = if j = 0 then x else 0#8 := by
  split_ifs with hj
  · rw [hj]
    exact setWidth_setWidth_self (show 8 ≤ 32 by decide) x
  · exact byteOf_setWidth_of_ge x (by omega)

theorem readCoherent_word {l : Lane r} (h : r.bytes = 4) (s : State P E) : ReadCoherent dev l s := by
  intro k hk
  rw [value_eq, read_word h]
  split
  · next hw =>
    rw [hw, show Width.byte.bytes = 1 from rfl] at hk
    obtain rfl : k = 0 := by omega
    rw [byteLane, l.byteShift_addr h, byteOf_setWidth8, if_pos rfl]
    rfl
  · next hw =>
    rw [hw, show Width.half.bytes = 2 from rfl] at hk
    rw [halfLane, l.halfShift_addr h hw, byteOf_narrow (n := 2) _ (by omega) hk, byteOf_ushiftRight,
      Nat.add_comm]

/-! ## 7. Writes of parts of a word -/

def Reg.set (w : Word) (s : State P E) : Reg → State P E
  | .sioMode => { s with sio := { s.sio with mode := w.setWidth 16 } }
  | .sioCtrl => { s with sio := { s.sio with ctrl := w.setWidth 16 } }
  | .sioBaud => { s with sio := { s.sio with baud := w.setWidth 16 } }
  | .memCtrl i => s.setMemCtrl i w
  | .ramSize => { s with ramSize := w }
  | .iMask => { s with iMask := .ofWord w }
  | .madr ch => { s with dma := s.dma.setMadr ch w }
  | .bcr ch => { s with dma := s.dma.setChannel ch { s.dma.channels ch with bcr := w } }
  | .chcr ch => { s with dma := s.dma.setChannel ch { s.dma.channels ch with chcr := w } }

variable {ch : Fin 7}

section
variable {s s' : State P E} {v w : Word}

theorem channels_setChannel (f : Dma.Channel → Word) {d : Dma.State E} {c : Fin 7} {new : Dma.Channel}
    (h : c = ch → f new = f (d.channels ch)) : f ((d.setChannel ch new).channels c) = f (d.channels c) := by
  by_cases hc : c = ch
  · subst hc
    exact (congrArg f (update_self ..)).trans (h rfl)
  · exact congrArg f (update_of_ne hc ..)

theorem Reg.get_set_self (r : Reg) (w : Word) (s : State P E) : r.get (r.set w s) = w &&& r.writable := by
  have hones (x : Word) : x &&& 0xFFFFFFFF#32 = x := and_allOnes
  have hlow : (w.setWidth 16).setWidth 32 = w &&& 0xFFFF#32 := setWidth_setWidth_low rfl (by decide) w
  cases r with
  | sioMode | sioCtrl | sioBaud => exact hlow
  | iMask => rfl
  | memCtrl i => exact (update_self ..).trans (hones w).symm
  | ramSize => exact (hones w).symm
  | madr ch => exact (congrArg Dma.Channel.madr (update_self ..)).trans (hones w).symm
  | bcr ch => exact (congrArg Dma.Channel.bcr (update_self ..)).trans (hones w).symm
  | chcr ch => exact (congrArg Dma.Channel.chcr (update_self ..)).trans (hones w).symm

theorem Reg.get_set_of_ne {q : Reg} (h : q ≠ r) (w : Word) (s : State P E) :
    q.get (r.set w s) = q.get s := by
  cases r with
  | sioMode | sioCtrl | sioBaud | ramSize | iMask =>
    cases q <;> first | rfl | exact absurd rfl h
  | memCtrl i =>
    cases q with
    | memCtrl j => exact update_of_ne (fun hij => h (congrArg memCtrl hij)) ..
    | _ => rfl
  | madr ch | bcr ch | chcr ch =>
    cases q with
    | madr c => exact channels_setChannel Dma.Channel.madr fun hc => by first | rfl | exact absurd (hc ▸ rfl) h
    | bcr c => exact channels_setChannel Dma.Channel.bcr fun hc => by first | rfl | exact absurd (hc ▸ rfl) h
    | chcr c => exact channels_setChannel Dma.Channel.chcr fun hc => by first | rfl | exact absurd (hc ▸ rfl) h
    | _ => rfl

theorem Reg.get_and_writable (r : Reg) (s : State P E) : r.get s &&& r.writable = r.get s := by
  have hlow (x : BitVec 16) : x.setWidth 32 &&& 0xFFFF#32 = x.setWidth 32 := by
    rw [← setWidth_setWidth_low (k := 16) rfl (by decide)]
    exact congrArg (setWidth 32) (setWidth_setWidth_self (show 16 ≤ 32 by decide) x)
  cases r with
  | sioMode => exact hlow s.sio.mode
  | sioCtrl => exact hlow s.sio.ctrl
  | sioBaud => exact hlow s.sio.baud
  | iMask => exact s.iMask.small
  | memCtrl i | ramSize | madr ch | bcr ch | chcr ch => exact and_allOnes

def Lane.put (l : Lane r) (old v : Word) : Word :=
  match l.width with
  | .byte => putByte l.addr old (v.setWidth 8)
  | .half => putHalf l.addr old (v.setWidth 16)

theorem Lane.byteOf_put (l : Lane r) (h : r.bytes = 4) (old v : Word) (hj : j < 4) :
    byteOf (l.put old v) j = if l.Has j then byteOf v (j - l.off) else byteOf old j := by
  unfold Lane.put Lane.Has
  split
  · next hw =>
    simp only [hw, putByte, l.byteShift_addr h]
    exact byteOf_insert (n := 1) hj (by decide)
  · next hw =>
    simp only [hw, putHalf, l.halfShift_addr h hw]
    exact byteOf_insert (n := 2) hj (by decide)

theorem writeCoherent_iff_get {l : Lane r} (hwrite : l.write dev pad bus v s = some s') :
    WriteCoherent dev pad bus l v s ↔ (∀ q : Reg, q ≠ r → q.get s' = q.get s) ∧
      ∀ j < 4, byteOf (r.get s') j =
        if l.Has j then byteOf v (j - l.off) &&& byteOf r.writable j else byteOf (r.get s) j := by
  have hvalue (q : Reg) (t : State P E) : value dev q t = q.get t := value_eq dev q t
  unfold WriteCoherent
  simp only [hvalue]
  constructor
  · rintro ⟨s'', hwrite', hothers, hlanes⟩
    obtain rfl : s' = s'' := Option.some.inj (hwrite.symm.trans hwrite')
    exact ⟨hothers, hlanes⟩
  · rintro ⟨hothers, hlanes⟩
    exact ⟨s', hwrite, hothers, hlanes⟩

theorem tryExecute_disabled {d : Dma.State E} (h : d.enabled ch = false) :
    Dma.tryExecute bus ch d = some d := by
  unfold Dma.tryExecute
  rw [h]
  split <;> rfl

theorem writeDma_get {addr val mask : Word} (h : Dma.Reg.ofAddr addr = r.toDma) (hr : r.block = .dma)
    (hquiet : ∀ ch, r = .chcr ch → s.dma.enabled ch = true → mask.getLsbD 24 = true →
      val.getLsbD 24 = false) :
    ∃ s', s.writeDma bus addr val mask = some s' ∧
      ∀ q : Reg, q.get s' = q.get (r.set (Dma.merge (r.get s) val mask) s) := by
  unfold State.writeDma Dma.dmaWriteMasked
  rw [h]
  cases r with
  | madr ch | bcr ch => exact ⟨_, rfl, fun q => rfl⟩
  | chcr ch =>
    dsimp only [toDma]
    unfold Dma.writeChcr
    dsimp only
    split_ifs with hmask hbusy
    · -- bit 24 is written and set, so the channel is not enabled
      have hchannel : ((s.dma.setChannel ch { s.dma.channels ch with
          chcr := Dma.merge (s.dma.channels ch).chcr val mask }).channels ch).chcr =
          Dma.merge (s.dma.channels ch).chcr val mask :=
        (congrArg Dma.Channel.chcr (update_self ..)).trans rfl
      have hset : val.getLsbD 24 = true := by
        rw [Dma.Channel.busy, hchannel, Dma.merge, getLsbD_or, getLsbD_and, getLsbD_and,
          getLsbD_not, hmask, Bool.and_true] at hbusy
        simpa using hbusy
      have hdisabled : s.dma.enabled ch = false := by
        refine Bool.eq_false_iff.mpr fun henabled => ?_
        exact absurd (hset.symm.trans (hquiet ch rfl henabled hmask)) (by decide)
      rw [tryExecute_disabled bus (by exact hdisabled)]
      exact ⟨_, rfl, fun q => rfl⟩
    · refine ⟨_, rfl, fun q => ?_⟩
      cases q <;> rfl
    · exact ⟨_, rfl, fun q => rfl⟩
  | _ => cases hr

def Lane.mask (l : Lane r) : Word :=
  match l.width with
  | .byte => 0xFF#32 <<< byteShift l.addr
  | .half => 0xFFFF#32 <<< halfShift l.addr

def Lane.word (l : Lane r) (v : Word) : Word :=
  match l.width with
  | .byte => (v.setWidth 8).setWidth 32 <<< byteShift l.addr
  | .half => (v.setWidth 16).setWidth 32 <<< halfShift l.addr

theorem Lane.merge_eq_put (l : Lane r) (old v : Word) : Dma.merge old (l.word v) l.mask = l.put old v := by
  unfold Dma.merge Lane.word Lane.mask Lane.put
  split
  · rw [putByte, setWidth_setWidth_low (k := 8) (m := 0xFF#32) rfl (by decide),
      ← shiftLeft_and_distrib, BitVec.and_assoc, BitVec.and_self]
  · rw [putHalf, setWidth_setWidth_low (k := 16) (m := 0xFFFF#32) rfl (by decide),
      ← shiftLeft_and_distrib, BitVec.and_assoc, BitVec.and_self]

/-- The write starts a DMA transfer: it sets bit 24 of the control register of an enabled channel. -/
def Starts (l : Lane r) (v : Word) (s : State P E) : Prop :=
  ∃ ch, r = .chcr ch ∧ s.dma.enabled ch = true ∧ l.Has 3 ∧ (byteOf v (3 - l.off)).getLsbD 0 = true

theorem Lane.word_eq_put (l : Lane r) (v : Word) : l.word v = l.put 0#32 v := by
  unfold Lane.word Lane.put putByte putHalf
  split
  · rw [zero_and, zero_or]
  · rw [zero_and, zero_or]

theorem word_of_not_starts {l : Lane r} (hr : r = .chcr ch) (henabled : s.dma.enabled ch = true)
    (hquiet : ¬ Starts l v s) : (l.word v).getLsbD 24 = false := by
  have hbit := getLsbD_byteOf (l.word v) (j := 3) (show 0 < 8 by decide)
  rw [l.word_eq_put, l.byteOf_put (by rw [hr]; rfl) _ _ (by decide)] at hbit
  rw [l.word_eq_put, ← hbit]
  split_ifs with hhas
  · exact Bool.eq_false_iff.mpr fun hset => hquiet ⟨ch, hr, henabled, hhas, hset⟩
  · rfl

theorem write_word {l : Lane r} (h : r.bytes = 4) (hquiet : ¬ Starts l v s) :
    ∃ s', l.write dev pad bus v s = some s' ∧
      ∀ q : Reg, q.get s' = q.get (r.set (l.put (r.get s) v) s) := by
  have hdma (hr : r.block = .dma) : ∃ s', s.writeDma bus (alignDown l.addr) (l.word v) l.mask = some s' ∧
      ∀ q : Reg, q.get s' = q.get (r.set (l.put (r.get s) v) s) := by
    rw [← l.merge_eq_put]
    exact writeDma_get bus (l.ofAddr_addr hr) hr fun ch hch henabled _ =>
      word_of_not_starts hch henabled hquiet
  have hmask := l.merge_eq_put (r.get s) v
  unfold Lane.word Lane.mask Lane.put at hdma hmask
  unfold Lane.write Lane.put
  split
  case' h_1 hw =>
    unfold mmioWrite8
    rw [l.decode8_addr.2]
  case' h_2 hw =>
    unfold mmioWrite16
    rw [l.decode16_addr hw]
  all_goals
    rw [‹l.width = _›] at hdma hmask
    dsimp only at hmask
    cases r with
    | sioMode | sioCtrl | sioBaud => cases h
    | memCtrl i | ramSize => exact ⟨_, rfl, fun q => rfl⟩
    | iMask => exact ⟨_, rfl, fun q => by rw [← hmask]; rfl⟩
    | madr ch | bcr ch | chcr ch => exact hdma rfl

theorem writeCoherent_word {l : Lane r} (h : r.bytes = 4) (hquiet : ¬ Starts l v s) :
    WriteCoherent dev pad bus l v s := by
  obtain ⟨s', hwrite, hget⟩ := write_word dev pad bus h hquiet
  refine (writeCoherent_iff_get dev pad bus hwrite).mpr ⟨fun q hq => ?_, fun j hj => ?_⟩
  · rw [hget, get_set_of_ne hq]
  · rw [hget, get_set_self, byteOf_and, l.byteOf_put h _ _ hj]
    split_ifs
    · rfl
    · rw [← byteOf_and, get_and_writable]

/-! ## 8. The serial port in halfwords and bytes -/

def sioRegs (t : Sio.State P) : BitVec 16 × BitVec 16 × BitVec 16 := (t.mode, t.ctrl, t.baud)

theorem sioRegs_txOff (value : BitVec 16) (t : Sio.State P) : sioRegs (Sio.txOff value t) = sioRegs t := by
  unfold Sio.txOff
  split_ifs <;> rfl

theorem sioRegs_writeCtrl (value : BitVec 16) (t : Sio.State P) :
    sioRegs (Sio.writeCtrl pad value t) =
      if value.getLsbD 6 then (0#16, 0#16, 0#16) else (t.mode, value, t.baud) := by
  have hkeep (f : Sio.State P → Sio.State P) (hf : ∀ x, sioRegs (f x) = sioRegs x) (b : Bool)
      (x : Sio.State P) : sioRegs (if b then f x else x) = sioRegs x := by
    split_ifs
    · exact hf x
    · rfl
  refine (hkeep (Sio.deselect pad) (fun _ => rfl) _ _).trans ?_
  refine (hkeep (Sio.txOff value) (sioRegs_txOff value) _ _).trans ?_
  refine (hkeep (fun x => { x with owner := .none, byteIndex := 0#32 }) (fun _ => rfl) _ _).trans ?_
  split_ifs <;> rfl

theorem Reg.sio_of_bytes (h : r.bytes = 2) : r = .sioMode ∨ r = .sioCtrl ∨ r = .sioBaud := by
  cases r <;> simp_all [bytes]

theorem Lane.cases_two (l : Lane r) (h : r.bytes = 2) :
    (l.width = .half ∧ l.off = 0) ∨ (l.width = .byte ∧ l.off < 2) := by
  have hfits := l.fits
  cases hw : l.width with
  | half =>
    rw [hw, show Width.half.bytes = 2 from rfl] at hfits
    exact .inl ⟨rfl, by omega⟩
  | byte =>
    rw [hw, show Width.byte.bytes = 1 from rfl] at hfits
    exact .inr ⟨rfl, by omega⟩

theorem Lane.addr_half (l : Lane r) (h : l.off = 0) : l.addr = r.addr := by
  rw [Lane.addr, h]
  rfl

def Reg.roundedDown : Reg → Word
  | .sioBaud => 0x1F80104C#32
  | _ => 0x1F801048#32

theorem Lane.alignDown_sio (l : Lane r) (h : r.bytes = 2) (hoff : l.off < 2) :
    alignDown l.addr = r.roundedDown := by
  have hmode : ∀ off < 2, alignDown (BitVec.ofNat 32 (0x1F801048 + off)) = 0x1F801048#32 := by decide
  have hctrl : ∀ off < 2, alignDown (BitVec.ofNat 32 (0x1F80104A + off)) = 0x1F801048#32 := by decide
  have hbaud : ∀ off < 2, alignDown (BitVec.ofNat 32 (0x1F80104E + off)) = 0x1F80104C#32 := by decide
  cases r with
  | sioMode => exact hmode l.off hoff
  | sioCtrl => exact hctrl l.off hoff
  | sioBaud => exact hbaud l.off hoff
  | _ => cases h

theorem Reg.byteOf_get_high (h : r.bytes = 2) (s : State P E) (hj : 2 ≤ j) :
    byteOf (r.get s) j = 0#8 := by
  obtain rfl | rfl | rfl := sio_of_bytes h
  · exact byteOf_setWidth_of_ge s.sio.mode (by omega)
  · exact byteOf_setWidth_of_ge s.sio.ctrl (by omega)
  · exact byteOf_setWidth_of_ge s.sio.baud (by omega)

theorem mmioRead8_sio {l : Lane r} (h : r.bytes = 2) (hoff : l.off < 2) :
    (mmioRead8 dev l.addr s).1 = if r = .sioBaud then 0#8 else byteOf (Reg.sioMode.get s) 0 := by
  unfold mmioRead8
  rw [l.decode8_addr.1]
  have hread := congrArg (fun a => (Sio.sioRead a s.sio).1.setWidth 8) (l.alignDown_sio h hoff)
  obtain rfl | rfl | rfl := sio_of_bytes h <;> exact hread

/-- When a byte or halfword reads as it should: always, except a byte of the serial port. -/
def ReadOk (l : Lane r) (s : State P E) : Prop :=
  r.bytes = 2 → l.width = .byte →
    byteOf (r.get s) l.off = if r = .sioBaud then 0#8 else byteOf (Reg.sioMode.get s) 0

theorem readCoherent_iff (l : Lane r) (s : State P E) : ReadCoherent dev l s ↔ ReadOk l s := by
  obtain h | h := r.bytes_cases
  · exact iff_of_true (readCoherent_word dev h s) fun htwo => absurd (h.symm.trans htwo) (by decide)
  obtain ⟨hw, hoff⟩ | ⟨hw, hoff⟩ := l.cases_two h
  · refine iff_of_true (fun k hk => ?_) fun _ hbyte => absurd (hw.symm.trans hbyte) (by decide)
    rw [value_eq, Lane.read, hw, hoff, l.addr_half hoff, Nat.zero_add]
    exact congrArg (byteOf · k) (mmioRead16_sio h)
  · have hread : l.read dev s = (mmioRead8 dev l.addr s).1.setWidth 32 := by rw [Lane.read, hw]
    constructor
    · intro hc _ _
      have hbyte := hc 0 (by rw [hw]; decide)
      rw [value_eq, hread, mmioRead8_sio dev h hoff, byteOf_setWidth8, if_pos rfl] at hbyte
      exact hbyte.symm
    · intro hok k hk
      rw [hw, show Width.byte.bytes = 1 from rfl] at hk
      obtain rfl : k = 0 := by omega
      rw [value_eq, hread, mmioRead8_sio dev h hoff, byteOf_setWidth8, if_pos rfl]
      exact (hok h hw).symm

theorem write_half_sio {l : Lane r} (h : r.bytes = 2) (hw : l.width = .half) (hoff : l.off = 0) :
    ∃ t, l.write dev pad bus v s = some { s with sio := t } ∧
      (sioRegs t = if r = .sioCtrl ∧ v.getLsbD 6 = true then (0#16, 0#16, 0#16)
        else sioRegs (r.set v s).sio) := by
  unfold Lane.write
  rw [hw]
  unfold mmioWrite16
  rw [l.decode16_addr hw, l.addr_half hoff]
  have hnarrow : ((v.setWidth 16).setWidth 32).setWidth 16 = v.setWidth 16 :=
    setWidth_setWidth_self (show 16 ≤ 32 by decide) (v.setWidth 16)
  have hbit : (v.setWidth 16).getLsbD 6 = v.getLsbD 6 := by simp
  obtain rfl | rfl | rfl := sio_of_bytes h
  · refine ⟨_, rfl, ?_⟩
    change (((v.setWidth 16).setWidth 32).setWidth 16, _, _) = _
    rw [hnarrow]
    rfl
  · refine ⟨_, rfl, ?_⟩
    change sioRegs (Sio.writeCtrl pad (((v.setWidth 16).setWidth 32).setWidth 16) s.sio) = _
    rw [hnarrow, sioRegs_writeCtrl, hbit]
    simp only [true_and]
    rfl
  · refine ⟨_, rfl, ?_⟩
    change (_, _, ((v.setWidth 16).setWidth 32).setWidth 16) = _
    rw [hnarrow]
    rfl

theorem write_byte_sio {l : Lane r} (h : r.bytes = 2) (hw : l.width = .byte) (hoff : l.off < 2) :
    l.write dev pad bus v s =
      some (if r = .sioBaud then s else Reg.sioMode.set ((v.setWidth 8).setWidth 32) s) := by
  unfold Lane.write
  rw [hw]
  unfold mmioWrite8
  rw [l.decode8_addr.2]
  have hwrite := congrArg (fun a => some (s.writeSio pad a ((v.setWidth 8).setWidth 32)))
    (l.alignDown_sio h hoff)
  obtain rfl | rfl | rfl := sio_of_bytes h <;> exact hwrite

/-- When a write changes what it should: always, except that the reset bit of the control register clears
the port, and a byte write of the port has to find there what it leaves. -/
def WriteOk (l : Lane r) (v : Word) (s : State P E) : Prop :=
  r.bytes = 2 →
    match l.width, r with
    | .half, _ => ¬ (r = .sioCtrl ∧ v.getLsbD 6 = true)
    | .byte, .sioMode => byteOf (Reg.sioMode.get s) (1 - l.off) = 0#8 ∧ (l.off = 1 → v.setWidth 8 = 0#8)
    | .byte, .sioCtrl =>
      Reg.sioMode.get s = (v.setWidth 8).setWidth 32 ∧ byteOf (Reg.sioCtrl.get s) l.off = v.setWidth 8
    | .byte, _ => byteOf (r.get s) l.off = v.setWidth 8

theorem Reg.get_congr {t u : Sio.State P} (h : sioRegs t = sioRegs u) (q : Reg) (s : State P E) :
    q.get { s with sio := t } = q.get { s with sio := u } := by
  cases q with
  | sioMode => exact congrArg (fun x => x.1.setWidth 32) h
  | sioCtrl => exact congrArg (fun x => x.2.1.setWidth 32) h
  | sioBaud => exact congrArg (fun x => x.2.2.setWidth 32) h
  | _ => rfl

theorem Reg.writable_sio (h : r.bytes = 2) : r.writable = 0xFFFF#32 := by
  obtain rfl | rfl | rfl := sio_of_bytes h <;> rfl

theorem writeCoherent_half_iff {l : Lane r} (h : r.bytes = 2) (hw : l.width = .half) (hoff : l.off = 0) :
    WriteCoherent dev pad bus l v s ↔ ¬ (r = .sioCtrl ∧ v.getLsbD 6 = true) := by
  have hhas {j : Nat} : l.Has j ↔ j < 2 := by
    rw [Lane.Has, hw, hoff, show Width.half.bytes = 2 from rfl]
    omega
  obtain ⟨t, hwrite, hregs⟩ := write_half_sio dev pad bus (v := v) (s := s) h hw hoff
  rw [writeCoherent_iff_get dev pad bus hwrite]
  constructor
  · -- the control register reads as zero, where its bit 6 was written
    rintro ⟨-, hlanes⟩ hreset
    rw [if_pos hreset] at hregs
    obtain ⟨rfl, hbit⟩ := hreset
    have hbyte := hlanes 0 (by decide)
    have hzero : t.ctrl = 0#16 := congrArg (fun x => x.2.1) hregs
    rw [if_pos (hhas.mpr (by decide)), hoff] at hbyte
    have hget : byteOf (sioCtrl.get { s with sio := t }) 0 = 0#8 := by
      rw [Reg.get, hzero]
      decide
    have hsix := congrArg (fun b : BitVec 8 => b.getLsbD 6) (hget.symm.trans hbyte)
    rw [getLsbD_and, getLsbD_byteOf _ (by decide), hbit] at hsix
    exact absurd hsix (by decide)
  · intro hkeep
    rw [if_neg hkeep] at hregs
    have hset (q : Reg) : q.get { s with sio := t } = q.get (r.set v s) := by
      rw [get_congr hregs]
      obtain rfl | rfl | rfl := sio_of_bytes h <;> rfl
    refine ⟨fun q hq => ?_, fun j _ => ?_⟩
    · rw [hset, get_set_of_ne hq]
    · rw [hset]
      split_ifs with hj
      · rw [get_set_self, byteOf_and, hoff, Nat.sub_zero]
      · have hhigh : 2 ≤ j := Nat.le_of_not_lt fun hlt => hj (hhas.mpr hlt)
        rw [byteOf_get_high h _ hhigh, byteOf_get_high h _ hhigh]

theorem Lane.has_byte {l : Lane r} (hw : l.width = .byte) : l.Has j ↔ j = l.off := by
  rw [Lane.Has, hw, show Width.byte.bytes = 1 from rfl]
  omega

theorem Reg.byteOf_writable (h : r.bytes = 2) (v : Word) (hj : j < 2) :
    byteOf v 0 &&& byteOf r.writable j = v.setWidth 8 := by
  have hones : ∀ j < 2, byteOf 0xFFFF#32 j = 0xFF#8 := by decide
  rw [writable_sio h, hones j hj]
  exact and_allOnes

section
variable {l : Lane r} (h : r.bytes = 2) (hw : l.width = .byte) (hoff : l.off < 2)
include h hw hoff

theorem lanes_byte_iff {g : Word} (hhigh : ∀ j, 2 ≤ j → byteOf g j = 0#8) :
    (∀ j < 4, byteOf g j =
      if l.Has j then byteOf v (j - l.off) &&& byteOf r.writable j else byteOf (r.get s) j) ↔
      byteOf g l.off = v.setWidth 8 ∧ byteOf g (1 - l.off) = byteOf (r.get s) (1 - l.off) := by
  constructor
  · intro hlanes
    have hbyte := hlanes l.off (by omega)
    have hother := hlanes (1 - l.off) (by omega)
    rw [if_pos ((Lane.has_byte hw).mpr rfl), Nat.sub_self, byteOf_writable h v hoff] at hbyte
    rw [if_neg (fun hc => absurd ((Lane.has_byte hw).mp hc) (by omega))] at hother
    exact ⟨hbyte, hother⟩
  · rintro ⟨hbyte, hother⟩ j _
    split_ifs with hj
    · obtain rfl := (Lane.has_byte hw).mp hj
      rw [Nat.sub_self, byteOf_writable h v hoff, hbyte]
    · have hne : j ≠ l.off := fun hc => hj ((Lane.has_byte hw).mpr hc)
      by_cases hlt : j < 2
      · rw [show j = 1 - l.off by omega, hother]
      · rw [hhigh j (by omega), byteOf_get_high h s (by omega)]

theorem lanes_unchanged_iff (hget : r.get s' = r.get s) :
    (∀ j < 4, byteOf (r.get s') j =
      if l.Has j then byteOf v (j - l.off) &&& byteOf r.writable j else byteOf (r.get s) j) ↔
      byteOf (r.get s) l.off = v.setWidth 8 := by
  rw [hget]
  exact (lanes_byte_iff h hw hoff fun j hj => byteOf_get_high h s hj).trans (and_iff_left rfl)

theorem writeCoherent_byte_iff : WriteCoherent dev pad bus l v s ↔ WriteOk l v s := by
  have hlow : (v.setWidth 8).setWidth 32 &&& 0xFFFF#32 = (v.setWidth 8).setWidth 32 := by
    rw [setWidth_setWidth_low (k := 8) (m := 0xFF#32) rfl (by decide), BitVec.and_assoc]
    rfl
  have hmode : sioMode.get (sioMode.set ((v.setWidth 8).setWidth 32) s) =
      (v.setWidth 8).setWidth 32 := (get_set_self ..).trans hlow
  rw [writeCoherent_iff_get dev pad bus (write_byte_sio dev pad bus h hw hoff)]
  unfold WriteOk
  rw [hw]
  obtain rfl | rfl | rfl := sio_of_bytes h
  · rw [if_neg (by decide)]
    refine Iff.trans (and_iff_right fun q hq => get_set_of_ne hq ..) ?_
    rw [hmode]
    refine (lanes_byte_iff h hw hoff fun j hj => byteOf_setWidth_of_ge _ (by omega)).trans
      (Iff.trans ?_ ⟨fun hc _ => hc, fun hc => hc rfl⟩)
    rw [byteOf_setWidth8, byteOf_setWidth8]
    obtain hzero | hone : l.off = 0 ∨ l.off = 1 := by omega
    · simp [hzero, eq_comm]
    · simp only [hone]
      constructor
      · rintro ⟨hval, hother⟩
        exact ⟨hother.symm.trans hval.symm, fun _ => hval.symm⟩
      · rintro ⟨hother, hval⟩
        exact ⟨(hval trivial).symm, (hval trivial).trans hother.symm⟩
  · rw [if_neg (by decide)]
    have hlanes := lanes_unchanged_iff (v := v) h hw hoff
      (get_set_of_ne (r := .sioMode) (by decide) ((v.setWidth 8).setWidth 32) s)
    refine Iff.trans (and_congr ⟨fun hothers => ?_, fun hsame q hq => ?_⟩ hlanes)
      ⟨fun hc _ => hc, fun hc => hc rfl⟩
    · exact (hothers .sioMode (by decide)).symm.trans hmode
    · by_cases hq : q = .sioMode
      · rw [hq, hmode, hsame]
      · rw [get_set_of_ne hq]
  · rw [if_pos rfl]
    refine Iff.trans (and_iff_right fun q _ => rfl) ?_
    exact (lanes_unchanged_iff h hw hoff rfl).trans ⟨fun hc _ => hc, fun hc => hc rfl⟩

end

/-! ## 9. All registers -/

theorem writeCoherent_iff {l : Lane r} (hquiet : ¬ Starts l v s) :
    WriteCoherent dev pad bus l v s ↔ WriteOk l v s := by
  obtain h | h := r.bytes_cases
  · refine iff_of_true (writeCoherent_word dev pad bus h hquiet) fun htwo => ?_
    exact absurd (h.symm.trans htwo) (by decide)
  obtain ⟨hw, hoff⟩ | ⟨hw, hoff⟩ := l.cases_two h
  · refine (writeCoherent_half_iff dev pad bus h hw hoff).trans ?_
    unfold WriteOk
    rw [hw]
    exact ⟨fun hc _ => hc, fun hc => hc h⟩
  · exact writeCoherent_byte_iff dev pad bus h hw hoff

end

/-- **Registers in parts.** Every byte and every halfword of a register that holds a value reads as the
part of the register that it is, if and only if `ReadOk`; and a write that starts no transfer changes
that part and nothing else, if and only if `WriteOk`. All blocks are right except the serial port in
bytes: `mmio_read8` and `mmio_write8` round its addresses down to four, where the registers are two
bytes wide, and write a byte as if it were the whole register. A write of the control register with its
reset bit clears all three registers of the port. -/
theorem lanes_coherent_iff (l : Lane r) (s : State P E) :
    (ReadCoherent dev l s ↔ ReadOk l s) ∧
      ∀ v, ¬ Starts l v s → (WriteCoherent dev pad bus l v s ↔ WriteOk l v s) :=
  ⟨readCoherent_iff dev l s, fun _ hquiet => writeCoherent_iff dev pad bus hquiet⟩

end

def nullPeriphery : Periphery Unit where
  iStat _ := 0#32
  writeStat _ _ e := e
  timersRead _ e := (0#32, e)
  timersWrite _ _ e := e
  cdromRead _ e := (0#32, e)
  cdromWrite _ _ e := e
  gpuReadGpuread e := (0#32, e)
  gpuReadGpustat e := (0#32, e)
  gpuWriteGp0 _ e := e
  gpuWriteGp1 _ e := e
  mdecRead _ e := (0#32, e)
  mdecWrite _ _ e := e
  spuRead _ e := (0#32, e)
  spuWrite _ _ e := e

/-- The port as a game sets it up: mode 000Dh, control 1003h, baud rate 0088h -/
def padPort : State Unit Unit where
  sio := { Sio.init Sio.noCards () with mode := 0x000D#16, ctrl := 0x1003#16, baud := 0x0088#16 }
  memCtrl _ := 0#32
  ramSize := 0x0B88#32
  iMask := .ofWord 0#32
  dma := Dma.reset ()

def ctrlLow : Lane .sioCtrl := ⟨.byte, 0, rfl, by decide⟩

/-- The upper byte of a channel's control register, where the channel is not enabled -/
def chcrHigh : Lane (.chcr 2) := ⟨.byte, 3, rfl, by decide⟩

theorem lanes_coherent_chcr : ¬ Starts chcrHigh 0x01#32 padPort ∧
    WriteCoherent nullPeriphery Sio.silentPad Dma.nullBus chcrHigh 0x01#32 padPort := by
  have hquiet : ¬ Starts chcrHigh 0x01#32 padPort := by
    rintro ⟨ch, hch, henabled, -, -⟩
    cases hch
    exact absurd henabled (by decide)
  refine ⟨hquiet, ?_⟩
  exact ((lanes_coherent_iff nullPeriphery Sio.silentPad Dma.nullBus chcrHigh padPort).2 _ hquiet).mpr nofun

/-- A byte of zero is written to the control register: the mode is cleared and the control register is not
changed. A read of the byte returns the mode's. -/
theorem control_byte_goes_to_mode :
    (∃ s', ctrlLow.write nullPeriphery Sio.silentPad Dma.nullBus 0#32 padPort = some s' ∧
      value nullPeriphery .sioMode padPort = 0x000D#32 ∧ value nullPeriphery .sioMode s' = 0#32 ∧
      value nullPeriphery .sioCtrl s' = 0x1003#32) ∧
    ¬ WriteCoherent nullPeriphery Sio.silentPad Dma.nullBus ctrlLow 0#32 padPort ∧
    ctrlLow.read nullPeriphery padPort = 0x0D#32 ∧ ¬ ReadCoherent nullPeriphery ctrlLow padPort := by
  refine ⟨⟨_, write_byte_sio _ _ _ rfl rfl (by decide), by decide, by decide, by decide⟩, ?_, by decide, ?_⟩
  · rw [writeCoherent_byte_iff _ _ _ rfl rfl (by decide)]
    exact fun hok => absurd (hok rfl).1 (by decide)
  · rw [readCoherent_iff]
    exact fun hok => absurd (hok rfl rfl) (by decide)

end PsxRecomp.Mmio
