import PsxRecomp.Runtime.SpuCdAudio

/-!
# `Runtime/Spu.lean` — the sound processor

The model of `runtime/src/spu.c`: 24 voices that decode ADPCM blocks from sound RAM, follow an envelope
and are mixed with the CD input, one stereo frame at a time.

`mixChannel` is written over what an `int` result becomes (`int`): the machine wraps it, the checked
reading stops. Everything else of the state does not depend on the mix. The event ring, the debug
counters and the float re-render that may replace a finished block (`spu_shadow.c`, off unless asked for)
are left out.
-/

set_option autoImplicit false

namespace PsxRecomp.Spu

open Xa (Frame Sample)
open CInt (wrap)

abbrev Ram := Nat → BitVec 8
abbrev Regs := Nat → BitVec 16

/-- `SPU_RAM_SIZE` -/
def ramSize : Nat := 512 * 1024

/-- `SPU_BLOCK_SAMPLES` -/
def blockSamples : Nat := 28

def clamp16 (v : Int) : Sample :=
  BitVec.ofInt 16 (if 32767 < v then 32767 else if v < -32768 then -32768 else v)

/-! ## 1. The envelope -/

inductive AdsrPhase where
  | attack
  | decay
  | sustain
  | release
deriving DecidableEq, Repr

structure Adsr where
  sl : Nat
  dr : Nat
  ar : Nat
  attackExp : Bool
  rr : Nat
  releaseExp : Bool
  sr : Nat
  sustainDec : Bool
  sustainExp : Bool
deriving DecidableEq, Repr

def adsrOf (lo hi : BitVec 16) : Adsr :=
  let raw : BitVec 32 := hi ++ lo
  { sl := (raw &&& 0x0F).toNat
    dr := (raw >>> 4 &&& 0x0F).toNat
    ar := (raw >>> 8 &&& 0x7F).toNat
    attackExp := raw.getLsbD 15
    rr := (raw >>> 16 &&& 0x1F).toNat
    releaseExp := raw.getLsbD 21
    sr := (raw >>> 22 &&& 0x7F).toNat
    sustainDec := raw.getLsbD 30
    sustainExp := raw.getLsbD 31 }

/-- The part of `calc_vc_delta` that looks at the speed only: `increment` and `divinco` -/
def vcRate (speed : Nat) (inv : Bool) : Int × Nat :=
  let increment : Int := 7 - (speed &&& 0x3 : Nat)
  let increment := if inv then -increment - 1 else increment
  (if speed < 0x2C then increment * 2 ^ ((0x2F - speed) >>> 2) else increment,
    if 0x30 ≤ speed then 32768 >>> ((speed - 0x2C) >>> 2) else 32768)

def vcBend (speed : Nat) (logMode decMode : Bool) (current : BitVec 16) (rate : Int × Nat) : Int × Nat :=
  if logMode then
    if decMode then ((current.toInt * rate.1) >>> (15 : Nat), rate.2)
    else if 0x6000 ≤ (current &&& 0x7FFF).toNat then
      if speed < 0x28 then (rate.1 >>> (2 : Nat), rate.2)
      else if 0x2C ≤ speed then (rate.1, rate.2 >>> 2)
      else (rate.1 >>> (1 : Nat), rate.2 >>> 1)
    else rate
  else rate

def calcVcDelta (zs speed : Nat) (logMode decMode inv : Bool) (current : BitVec 16) : Int × Nat :=
  let (increment, divinco) := vcBend speed logMode decMode current (vcRate speed inv)
  (increment, if divinco = 0 ∧ speed < zs then 1 else divinco)

/-- The `switch` of `adsr_run` -/
def Adsr.delta (a : Adsr) (current : BitVec 16) : AdsrPhase → Int × Nat
  | .attack => calcVcDelta 0x7F a.ar a.attackExp false false current
  | .decay => calcVcDelta (0x1F <<< 2) (a.dr <<< 2) true true true current
  | .sustain => calcVcDelta 0x7F a.sr a.sustainExp a.sustainDec a.sustainDec current
  | .release => calcVcDelta (0x1F <<< 2) (a.rr <<< 2) a.releaseExp true true current

def Adsr.uoflowReset (a : Adsr) : AdsrPhase → BitVec 16
  | .attack => 0x7FFF
  | .decay => 0
  | .sustain => if a.sustainDec then 0 else 0x7FFF
  | .release => 0

/-- `env_level`, `adsr_divider` (a `uint32_t`) and `adsr_phase` -/
structure Envelope where
  level : BitVec 16
  divider : Nat
  phase : AdsrPhase
deriving DecidableEq, Repr

def Envelope.enterDecay (e : Envelope) : Envelope :=
  if e.phase = .attack ∧ e.level = 0x7FFF then { e with phase := .decay } else e

def Adsr.bump (a : Adsr) (phase : AdsrPhase) (prev : BitVec 16) (increment : Int) : BitVec 16 :=
  let level := BitVec.ofInt 16 (prev.toNat + increment)
  if phase = .attack then
    -- the high bit just rolled over
    if (prev ^^^ level) &&& level &&& 0x8000 ≠ 0 then a.uoflowReset phase else level
  else if level &&& 0x8000 ≠ 0 then a.uoflowReset phase
  else level

/-- `adsr_run` in the phase that the envelope is in -/
def Envelope.runIn (a : Adsr) (e : Envelope) : Envelope :=
  let (increment, divinco) := a.delta e.level e.phase
  let divider := (e.divider + divinco) % 2 ^ 32
  if divider.testBit 15 then
    let level := a.bump e.phase e.level increment
    { level := level
      divider := 0
      phase := if e.phase = .decay ∧ level.toNat < (a.sl + 1) <<< 11 then .sustain else e.phase }
  else { e with divider := divider }

/-- `adsr_run` -/
def Envelope.run (a : Adsr) (e : Envelope) : Envelope := e.enterDecay.runIn a

/-! ## 2. A voice -/

/-- `SpuVoice` -/
structure Voice where
  active : Bool
  curAddr : Nat
  repeatAddr : Nat
  samples : List Sample
  sampleIdx : Nat
  phase : Nat
  hist1 : Sample
  hist2 : Sample
  flags : BitVec 8
  env : Envelope

open Voice

def Voice.zero : Voice :=
  ⟨false, 0, 0, List.replicate blockSamples 0, 0, 0, 0, 0, 0, ⟨0, 0, .attack⟩⟩

def filter0 : Nat → Int
  | 1 => 60
  | 2 => 115
  | 3 => 98
  | 4 => 122
  | _ => 0

def filter1 : Nat → Int
  | 2 => -52
  | 3 => -55
  | 4 => -60
  | _ => 0

/-- One sample from its four bits and the two samples before it -/
def decodeSample (filter shift : Nat) (hist1 hist2 : Sample) (sample4 : BitVec 4) : Sample :=
  clamp16 ((sample4.toInt * 4096) >>> shift +
    ((hist1.toInt * filter0 filter + hist2.toInt * filter1 filter + 32) >>> (6 : Nat)))

def decodeSamples (filter shift : Nat) :
    List (BitVec 4) → Sample → Sample → List Sample × Sample × Sample
  | [], hist1, hist2 => ([], hist1, hist2)
  | sample4 :: rest, hist1, hist2 =>
    let s := decodeSample filter shift hist1 hist2 sample4
    let (out, h1, h2) := decodeSamples filter shift rest s hist1
    (s :: out, h1, h2)

def blockAddr (curAddr : Nat) : Nat :=
  let addr := curAddr % ramSize
  if ramSize < addr + 16 then 0 else addr

/-- The 28 four-bit samples of the block at an address, low half of a byte first -/
def blockNibbles (ram : Ram) (addr : Nat) : List (BitVec 4) :=
  (List.range 14).flatMap fun b =>
    [(ram (addr + 2 + b)).setWidth 4, (ram (addr + 2 + b) >>> 4).setWidth 4]

def blockFilter (header : BitVec 8) : Nat :=
  let filter := (header >>> 4 &&& 0x0F).toNat
  if 4 < filter then 0 else filter

def blockShift (header : BitVec 8) : Nat :=
  let shift := (header &&& 0x0F).toNat
  if 12 < shift then 12 else shift

def Voice.decodeBlock (ram : Ram) (v : Voice) : Voice :=
  let addr := blockAddr v.curAddr
  let header := ram addr
  let flags := ram (addr + 1)
  let decoded :=
    decodeSamples (blockFilter header) (blockShift header) (blockNibbles ram addr) v.hist1 v.hist2
  { v with
    samples := decoded.1
    hist1 := decoded.2.1
    hist2 := decoded.2.2
    repeatAddr := if flags.getLsbD 2 then addr else v.repeatAddr
    flags := flags
    sampleIdx := 0
    curAddr := (addr + 16) % ramSize }

/-- The block that was played is the last of its program, which is not repeated -/
def Voice.programEnds (v : Voice) : Bool := v.flags.getLsbD 0 && !v.flags.getLsbD 1

/-- What the flags of the block that was played ask for -/
def Voice.followFlags (v : Voice) : Voice :=
  if v.flags.getLsbD 0 then
    if v.flags.getLsbD 1 then { v with curAddr := v.repeatAddr % ramSize }
    else { v with env := { v.env with phase := .release, divider := 0 }, flags := 0 }
  else v

/-- The next block, when the one that is there has been played -/
def Voice.refill (ram : Ram) (v : Voice) : Voice :=
  if blockSamples ≤ v.sampleIdx then v.followFlags.decodeBlock ram else v

def Voice.rawSample (v : Voice) : Sample := v.samples.getD v.sampleIdx 0

def Voice.shaped (v : Voice) : Sample :=
  clamp16 ((v.rawSample.toInt * v.env.level.toNat) >>> (15 : Nat))

def Voice.fade (v : Voice) : Voice :=
  if v.env.phase = .release ∧ v.env.level = 0 then { v with active := false } else v

/-- `while (v->phase >= 0x1000u)`. The loop breaks at the end of the block, so it is left after at most 28
passes. -/
def stepPhase : Nat → Nat → Nat → Nat × Nat
  | 0, idx, phase => (idx, phase)
  | fuel + 1, idx, phase =>
    if 0x1000 ≤ phase then
      if blockSamples ≤ idx + 1 then (idx + 1, phase - 0x1000)
      else stepPhase fuel (idx + 1) (phase - 0x1000)
    else (idx, phase)

def pitchOf (raw : BitVec 16) : Nat :=
  let pitch := (raw &&& 0x3FFF).toNat
  if pitch = 0 then 0x1000 else pitch

def Voice.advance (pitch : Nat) (v : Voice) : Voice :=
  let (idx, phase) := stepPhase blockSamples v.sampleIdx ((v.phase + pitch) % 2 ^ 32)
  { v with sampleIdx := idx, phase := phase }

/-- `voice_next_sample` behind its first line; `reg` are the voice's eight registers -/
def Voice.play (ram : Ram) (reg : Nat → BitVec 16) (v : Voice) : Sample × Voice :=
  let v := v.refill ram
  (v.shaped,
    ({ v with env := v.env.run (adsrOf (reg 4) (reg 5)) }.fade).advance (pitchOf (reg 2)))

/-- `voice_next_sample` -/
def Voice.nextSample (ram : Ram) (reg : Nat → BitVec 16) (v : Voice) : Sample × Voice :=
  if v.active then v.play ram reg else (0, v)

variable (v : Voice) (ram : Ram) (reg : Nat → BitVec 16)

theorem refill_active : (v.refill ram).active = v.active := by
  unfold refill followFlags
  split_ifs <;> rfl

theorem refill_env : (v.refill ram).env =
    if blockSamples ≤ v.sampleIdx ∧ v.programEnds then { v.env with phase := .release, divider := 0 }
    else v.env := by
  unfold refill followFlags programEnds
  cases h₀ : v.flags.getLsbD 0 <;> cases h₁ : v.flags.getLsbD 1 <;>
    by_cases hidx : blockSamples ≤ v.sampleIdx <;> simp [hidx] <;> rfl

theorem play_env :
    (v.play ram reg).2.env = (v.refill ram).env.run (adsrOf (reg 4) (reg 5)) := by
  unfold play fade advance
  dsimp only
  split_ifs <;> rfl

theorem play_active : (v.play ram reg).2.active =
    if (v.play ram reg).2.env.phase = .release ∧ (v.play ram reg).2.env.level = 0 then false
    else v.active := by
  rw [play_env, ← refill_active v ram]
  unfold play fade advance
  dsimp only
  split_ifs <;> rfl

theorem play_flags :
    (v.play ram reg).2.flags = (v.refill ram).flags := by
  unfold play fade advance
  dsimp only
  split_ifs <;> rfl

theorem play_samples :
    (v.play ram reg).2.samples = (v.refill ram).samples := by
  unfold play fade advance
  dsimp only
  split_ifs <;> rfl

theorem play_position :
    ((v.play ram reg).2.sampleIdx, (v.play ram reg).2.phase) =
      stepPhase blockSamples (v.refill ram).sampleIdx
        (((v.refill ram).phase + pitchOf (reg 2)) % 2 ^ 32) := by
  unfold play fade advance
  dsimp only
  split_ifs <;> rfl

theorem run_phase_ne_release {e : Envelope} (h : e.phase ≠ .release) (a : Adsr) :
    (e.run a).phase ≠ .release := by
  have hdecay : e.enterDecay.phase ≠ .release := by
    unfold Envelope.enterDecay
    split_ifs
    · exact nofun
    · exact h
  unfold Envelope.run Envelope.runIn
  dsimp only
  split_ifs
  · exact nofun
  · exact hdecay
  · exact hdecay

/-- A voice that plays on and has read no flag -/
structure Endless (v : Voice) : Prop where
  active : v.active = true
  flags : v.flags = 0
  phase : v.env.phase ≠ .release

theorem Endless.programEnds {v : Voice} (h : Endless v) : v.programEnds = false := by
  unfold Voice.programEnds
  rw [h.flags]
  rfl

/-- In sound RAM without flags it goes on for ever. -/
theorem Endless.play {v : Voice} (h : Endless v) (reg : Nat → BitVec 16) :
    Endless (v.play (fun _ => 0) reg).2 := by
  have henv : (v.refill fun _ => 0).env = v.env := by
    rw [refill_env, h.programEnds, if_neg nofun]
  have hflags : (v.refill fun _ => 0).flags = 0 := by
    unfold refill
    split_ifs
    · rfl
    · exact h.flags
  have hphase : (v.play (fun _ => 0) reg).2.env.phase ≠ .release := by
    rw [play_env, henv]
    exact run_phase_ne_release h.phase _
  refine ⟨?_, ?_, hphase⟩
  · rw [play_active, if_neg fun hboth => hphase hboth.1, h.active]
  · rw [play_flags, hflags]

/-! ## 3. The mix -/

def directVolume (raw : BitVec 16) : Int :=
  let v : Int := (raw &&& 0x7FFF).toNat
  let v := if raw.getLsbD 15 then v else if 0x4000 ≤ v then v - 0x8000 else v
  if 0x3FFF < v then 0x3FFF else if v < -0x4000 then -0x4000 else v

def cdInputVolume (raw : BitVec 16) : Int := raw.toInt

section
variable {m : Type → Type} [Monad m] (int : Int → m Int)

def mixVoice (mix : Int) (voice : Int × Int) : m Int :=
  if voice.1 = (0 : Int) then pure mix
  else do
    let p ← int (voice.1 * voice.2)
    int (mix + p >>> (14 : Nat))

def mixVoices (voices : List (Int × Int)) : m Int := voices.foldlM (mixVoice int) 0

def mixCd (cd : Option Int) (vol mix : Int) : m Int :=
  match cd with
  | none => pure mix
  | some c => do
    let p ← int (c * vol)
    int (mix + p >>> (15 : Nat))

def mixChannel (voices : List (Int × Int)) (cd : Option Int) (cdVol main : Int) : m Int := do
  let mix ← mixVoices int voices
  let mix ← mixCd int cd cdVol mix
  let p ← int (mix * main)
  pure (p >>> (14 : Nat))

end

/-! ## 4. The processor -/

structure State where
  ram : Ram
  regs : Regs
  voices : Fin 24 → Voice
  transferAddr : Nat
  endxLatch : BitVec 32
  cd : CdAudio

/-- `spu_init` -/
def State.init : State := ⟨fun _ => 0, fun _ => 0, fun _ => .zero, 0, 0, .reset⟩

def regIndex (addr : Nat) : Nat := (addr - 0x1F801C00) >>> 1

def State.voiceReg (s : State) (i : Fin 24) (reg : Nat) : BitVec 16 := s.regs (i * 8 + reg)

/-- A voice that has been keyed on: `start` and `loop` are its address registers -/
def Voice.keyed (start loop : BitVec 16) : Voice :=
  { Voice.zero with
    active := true
    curAddr := (start.toNat <<< 3) % ramSize
    repeatAddr := (loop.toNat <<< 3) % ramSize
    sampleIdx := blockSamples }

def State.keyOn (s : State) (mask : BitVec 32) : State :=
  { s with
    voices := fun i =>
      if mask.getLsbD i then Voice.keyed (s.voiceReg i 3) (s.voiceReg i 7) else s.voices i
    endxLatch := s.endxLatch &&& ~~~(mask &&& 0xFFFFFF) }

def Voice.keyOff (v : Voice) : Voice :=
  if v.active then { v with env := { v.env with phase := .release, divider := 0 } } else v

def State.keyOff (s : State) (mask : BitVec 32) : State :=
  { s with voices := fun i => if mask.getLsbD i then (s.voices i).keyOff else s.voices i }

def State.transferWord (s : State) (value : BitVec 32) : State :=
  { s with
    ram :=
      if s.transferAddr + 1 < ramSize then
        Function.update (Function.update s.ram s.transferAddr (value.setWidth 8)) (s.transferAddr + 1)
          ((value >>> 8).setWidth 8)
      else s.ram
    transferAddr := (s.transferAddr + 2) % ramSize }

def State.writeEffect (s : State) (addr : Nat) (value : BitVec 32) : State :=
  if addr = 0x1F801D88 then s.keyOn (value &&& 0xFFFF)
  else if addr = 0x1F801D8A then s.keyOn ((value &&& 0xFFFF) <<< 16)
  else if addr = 0x1F801D8C then s.keyOff (value &&& 0xFFFF)
  else if addr = 0x1F801D8E then s.keyOff ((value &&& 0xFFFF) <<< 16)
  else if addr = 0x1F801DA6 then
    let target := (value &&& 0xFFFF).toNat <<< 3
    { s with transferAddr := if ramSize ≤ target then 0 else target }
  else if addr = 0x1F801DA8 then s.transferWord value
  else s

/-- `spu_write` -/
def State.write (s : State) (addr : Nat) (value : BitVec 32) : State :=
  if 0x1F801C00 ≤ addr ∧ addr ≤ 0x1F801DFF then
    { s with regs := Function.update s.regs (regIndex addr) (value.setWidth 16) }.writeEffect addr value
  else s

/-- `spu_dma_write` -/
def State.dmaWrite (s : State) (word : BitVec 32) : State :=
  { s with
    ram :=
      if s.transferAddr + 3 < ramSize then
        fun a =>
          if s.transferAddr ≤ a ∧ a < s.transferAddr + 4 then
            (word >>> (8 * (a - s.transferAddr))).setWidth 8
          else s.ram a
      else s.ram
    transferAddr := (s.transferAddr + 4) % ramSize }

def State.nextSample (s : State) (i : Fin 24) : Sample × Voice :=
  (s.voices i).nextSample s.ram (s.voiceReg i)

/-- The voice decodes a block with the end flag for this frame -/
def State.latchesEnd (s : State) (i : Fin 24) : Bool :=
  let v := s.voices i
  v.active && decide (blockSamples ≤ v.sampleIdx) && (v.refill s.ram).flags.getLsbD 0

/-- `ENDX` bits of the voices that reach an end block -/
def State.endBits (s : State) : BitVec 32 :=
  (List.finRange 24).foldl (fun bits i => if s.latchesEnd i then bits ||| (1 <<< i.val) else bits) 0

def State.ctrl (s : State) : BitVec 16 := s.regs (regIndex 0x1F801DAA)

def State.enabled (s : State) : Bool := s.ctrl.getLsbD 15

/-- The CD frame of this output frame, if the CD input is on and has one -/
def State.cdFrame (s : State) : Option Frame :=
  if s.ctrl.getLsbD 0 then (s.cd.pop cdRingFrames).1 else none

def State.cdNext (s : State) : CdAudio :=
  if s.ctrl.getLsbD 0 then
    let cd := (s.cd.pop cdRingFrames).2
    if (s.cd.pop cdRingFrames).1.isNone ∧ cd.pushFrames ≠ 0 then
      { cd with underflowFrames := cd.underflowFrames + 1 }
    else cd
  else s.cd

inductive Channel where
  | left
  | right
deriving DecidableEq, Repr

/-- The right channel's volume register follows the left one's. -/
def Channel.offset : Channel → Nat
  | .left => 0
  | .right => 1

def Channel.of (frame : Frame) : Channel → Int
  | .left => frame.left.toInt
  | .right => frame.right.toInt

def State.voiceTerms (s : State) (c : Channel) : List (Int × Int) :=
  (List.finRange 24).map fun i => ((s.nextSample i).1.toInt, directVolume (s.voiceReg i c.offset))

def State.mainVolume (s : State) (c : Channel) : Int :=
  directVolume (s.regs (regIndex 0x1F801D80 + c.offset))

def State.cdVolume (s : State) (c : Channel) : Int :=
  cdInputVolume (s.regs (regIndex 0x1F801DB0 + c.offset))

def State.cdSample (s : State) (c : Channel) : Option Int := s.cdFrame.map fun frame => c.of frame

/-- A channel of the next frame, under a reading of `int` -/
def State.mix {m : Type → Type} [Monad m] (int : Int → m Int) (s : State) (c : Channel) : m Int :=
  mixChannel int (s.voiceTerms c) (s.cdSample c) (s.cdVolume c) (s.mainVolume c)

/-- … and as the machine computes it -/
def State.machineMix (s : State) (c : Channel) : Int := Id.run (s.mix (fun v => pure (wrap 32 v)) c)

/-- One pass of the frame loop of `spu_render` -/
def State.renderFrame (s : State) : Frame × State :=
  if s.enabled then
    (⟨clamp16 (s.machineMix .left), clamp16 (s.machineMix .right)⟩,
      { s with
        voices := fun i => (s.nextSample i).2
        endxLatch := s.endxLatch ||| s.endBits
        cd := s.cdNext })
  else (⟨clamp16 0, clamp16 0⟩, s)

/-- `spu_render` -/
def State.render : Nat → State → List Frame × State
  | 0, s => ([], s)
  | frames + 1, s =>
    let (frame, s) := s.renderFrame
    let (out, s) := render frames s
    (frame :: out, s)

/-! ## 5. Histories -/

/-- What happens to the processor. A call of `spu_render` is as many frames in a row. -/
inductive Event where
  | write (addr : Nat) (value : BitVec 32)
  | dmaWrite (word : BitVec 32)
  | cdPush (stereo : List Frame)
  | cdReset
  | frame

def State.step : Event → State → State
  | .write addr value, s => s.write addr value
  | .dmaWrite word, s => s.dmaWrite word
  | .cdPush stereo, s => { s with cd := s.cd.push cdRingFrames stereo }
  | .cdReset, s => { s with cd := .reset }
  | .frame, s => s.renderFrame.2

end PsxRecomp.Spu
