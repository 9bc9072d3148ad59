import PsxRecomp.Lib.Runs
import PsxRecomp.Machine.Cpu

/-!
# `Runtime/Gp0.lean` — the GP0 command port

`gpu_write_gp0` as a state machine: the table of word counts, the collection of a command's words into
the buffer, the dispatch of a complete command, the data words of an upload, and the two kinds of
polylines. What a command draws is up to a renderer `B` with a state of its own; the machine here is
what decides which words belong together.

A stop is a call of `psx_fatal_halt`, which does not return, or a store behind the buffer.
-/

set_option autoImplicit false

namespace PsxRecomp.Gp0

/-! ## 1. The two opcode tables -/

abbrev Opcode := BitVec 8

/-- `(val >> 24) & 0xFF` -/
def opcodeOf (v : Word) : Opcode := v.extractLsb' 24 8

/-- A `switch` whose cases are ranges -/
def lookup {α : Type} (cases : List (Nat × Nat × α)) (op : Opcode) : Option α :=
  (cases.find? fun c => c.1 ≤ op.toNat ∧ op.toNat ≤ c.2.1).map (·.2.2)

/-- The cases of `gp0_command_word_count` -/
def wordCounts : List (Nat × Nat × Int) :=
  [(0x00, 0x00, 1), (0x01, 0x01, 1), (0x02, 0x02, 3), (0x1F, 0x1F, 1),
   -- polygons
   (0x20, 0x23, 4), (0x24, 0x27, 7), (0x28, 0x2B, 5), (0x2C, 0x2F, 9),
   (0x30, 0x33, 6), (0x34, 0x37, 9), (0x38, 0x3B, 8), (0x3C, 0x3F, 12),
   -- lines
   (0x40, 0x47, 3), (0x48, 0x4F, -1), (0x50, 0x57, 4), (0x58, 0x5F, -1),
   -- rectangles
   (0x60, 0x63, 3), (0x64, 0x67, 4), (0x68, 0x6B, 2), (0x6C, 0x6F, 3),
   (0x70, 0x73, 2), (0x74, 0x77, 3), (0x78, 0x7B, 2), (0x7C, 0x7F, 3),
   -- copies
   (0x80, 0x9F, 4), (0xA0, 0xBF, 3), (0xC0, 0xDF, 3),
   -- environment
   (0xE0, 0xE0, 1), (0xE1, 0xE1, 1), (0xE2, 0xE2, 1), (0xE3, 0xE3, 1), (0xE4, 0xE4, 1),
   (0xE5, 0xE5, 1), (0xE6, 0xE6, 1),
   -- the default branch
   (0x03, 0x1E, 1), (0xE7, 0xEF, 1), (0xFF, 0xFF, 1)]

/-- `gp0_command_word_count`: -1 for a polyline, 0 for an unknown command -/
def gp0CommandWordCount (op : Opcode) : Int := (lookup wordCounts op).getD 0

/-- The functions `gp0_execute_command` calls -/
inductive Handler
  | nop | fillRect | drawMode | textureWindow | drawAreaTl | drawAreaBr | drawOffset | maskBit
  | monoTri | texturedTri | monoQuad | texturedQuad
  | shadedTri | shadedTexturedTri | shadedQuad | shadedTexturedQuad
  | monoLine | shadedLine
  | monoRect | texturedRect | monoDot | texturedDot | mono8x8 | textured8x8 | mono16x16 | textured16x16
  | copyRect | cpuToVram | vramToCpu
  /-- `break` in the default branch -/
  | ignore
deriving DecidableEq, Repr

/-- The cases of `gp0_execute_command` -/
def handlers : List (Nat × Nat × Handler) :=
  [(0x00, 0x01, .nop), (0x02, 0x02, .fillRect), (0xE1, 0xE1, .drawMode), (0xE2, 0xE2, .textureWindow),
   (0xE3, 0xE3, .drawAreaTl), (0xE4, 0xE4, .drawAreaBr), (0xE5, 0xE5, .drawOffset),
   (0xE6, 0xE6, .maskBit),
   (0x20, 0x23, .monoTri), (0x24, 0x27, .texturedTri), (0x28, 0x2B, .monoQuad),
   (0x2C, 0x2F, .texturedQuad), (0x30, 0x33, .shadedTri), (0x34, 0x37, .shadedTexturedTri),
   (0x38, 0x3B, .shadedQuad), (0x3C, 0x3F, .shadedTexturedQuad),
   (0x40, 0x47, .monoLine), (0x50, 0x57, .shadedLine),
   (0x60, 0x63, .monoRect), (0x64, 0x67, .texturedRect), (0x68, 0x6B, .monoDot),
   (0x6C, 0x6F, .texturedDot), (0x70, 0x73, .mono8x8), (0x74, 0x77, .textured8x8),
   (0x78, 0x7B, .mono16x16), (0x7C, 0x7F, .textured16x16),
   (0x80, 0x9F, .copyRect), (0xA0, 0xBF, .cpuToVram), (0xC0, 0xDF, .vramToCpu),
   -- the default branch
   (0x03, 0x1E, .ignore), (0xE0, 0xE0, .ignore), (0xE7, 0xEF, .ignore), (0xFF, 0xFF, .ignore)]

/-! ## 2. The machine -/

/-- `Gp0State` -/
inductive Phase
  | idle | collecting | vramWrite | polylineMono | polylineShaded
deriving DecidableEq, Repr

structure Renderer (G : Type) where
  /-- the handlers that only draw or set registers -/
  exec : Handler → Vector Word 16 → G → G
  /-- a pixel of an upload, with the mask bits -/
  pixel : Nat → Nat → BitVec 16 → G → G
  /-- `text_xlate_vram_upload` -/
  uploaded : Nat → Nat → Nat → Nat → G → G
  /-- the header of a polyline -/
  polyline : Word → G → G
  /-- a further word of a polyline, with `polyline_has_prev` -/
  polyWord : Nat → Word → G → G

/-- `vram_write_x` and so on -/
structure Upload where
  x : Nat := 0
  y : Nat := 0
  w : Nat := 0
  h : Nat := 0
  col : Nat := 0
  row : Nat := 0
  remaining : Word := 0#32

structure State (G : Type) where
  phase : Phase
  /-- `gp0_cmd_buf` -/
  buf : Vector Word 16
  collected : Nat
  needed : Nat
  upload : Upload
  /-- `polyline_has_prev` -/
  hasPrev : Nat
  /-- the calls of `gp0_ring_record` -/
  ring : List (List Word)
  gpu : G

inductive Stop
  /-- "GPU GP0 unknown command" -/
  | unknown (word : Word)
  /-- "GPU GP0 unimplemented command" -/
  | unimplemented (word : Word)
  /-- a store to `gp0_cmd_buf[16]` or behind -/
  | overrun
deriving DecidableEq, Repr

section
variable {G : Type} (B : Renderer G)

abbrev State.cmdWord (s : State G) : Word := s.buf[0]
abbrev State.sizeWord (s : State G) : Word := s.buf[2]

def dimOr (d max : Nat) : Nat := if d = 0 then max else d

def widthOf (v : Word) : Nat := dimOr (v &&& 0x3FF#32).toNat 0x400
def heightOf (v : Word) : Nat := dimOr ((v >>> 16) &&& 0x1FF#32).toNat 0x200

def gp0ExecCpuToVram (s : State G) : State G :=
  let w := widthOf s.buf[2]
  let h := heightOf s.buf[2]
  let remaining := BitVec.ofNat 32 ((w * h + 1) / 2)
  let s := { s with upload :=
    { x := (s.buf[1] &&& 0x3FF#32).toNat, y := ((s.buf[1] >>> 16) &&& 0x1FF#32).toNat
      w := w, h := h, col := 0, row := 0, remaining := remaining } }
  if remaining ≠ 0#32 then { s with phase := .vramWrite } else s

def gp0ExecuteCommand (s : State G) : Except Stop (State G) :=
  let s := { s with ring := s.ring ++ [s.buf.toList.take s.needed] }
  match lookup handlers (opcodeOf s.buf[0]) with
  | none => .error (.unimplemented s.buf[0])
  | some .cpuToVram => .ok (gp0ExecCpuToVram s)
  | some h => .ok { s with gpu := B.exec h s.buf s.gpu }

def writePixel (p : BitVec 16) (s : State G) : State G × Bool :=
  let u := s.upload
  let s := { s with gpu := B.pixel ((u.x + u.col) % 1024) ((u.y + u.row) % 512) p s.gpu }
  if u.col + 1 = u.w then
    ({ s with upload := { u with col := 0, row := u.row + 1 } }, decide (u.row + 1 = u.h))
  else ({ s with upload := { u with col := u.col + 1 } }, false)

def finishUpload (s : State G) : State G :=
  { s with phase := .idle, gpu := B.uploaded s.upload.x s.upload.y s.upload.w s.upload.h s.gpu }

/-- `gpu_write_gp0` in `GP0_VRAM_WRITE` -/
def writeUpload (val : Word) (s : State G) : State G :=
  let (s, done) := writePixel B (val.extractLsb' 0 16) s
  if done then finishUpload B { s with upload := { s.upload with remaining := 0#32 } }
  else
    let (s, done) := writePixel B (val.extractLsb' 16 16) s
    if done then finishUpload B { s with upload := { s.upload with remaining := 0#32 } }
    else
      let s := { s with upload := { s.upload with remaining := s.upload.remaining - 1#32 } }
      if s.upload.remaining = 0#32 then finishUpload B s else s

/-- `(val & 0xF000F000u) == 0x50005000u` -/
def terminator (val : Word) : Bool := val &&& 0xF000F000#32 = 0x50005000#32

/-- `gpu_write_gp0` in `GP0_POLYLINE_MONO` -/
def writeMono (val : Word) (s : State G) : State G :=
  if terminator val then { s with phase := .idle }
  else { s with gpu := B.polyWord s.hasPrev val s.gpu, hasPrev := 1 }

/-- `gpu_write_gp0` in `GP0_POLYLINE_SHADED` -/
def writeShaded (val : Word) (s : State G) : State G :=
  if s.hasPrev = 0 then { s with gpu := B.polyWord 0 val s.gpu, hasPrev := 1 }
  else if s.hasPrev = 1 then
    if terminator val then { s with phase := .idle }
    else { s with gpu := B.polyWord 1 val s.gpu, hasPrev := 2 }
  else { s with gpu := B.polyWord s.hasPrev val s.gpu, hasPrev := 1 }

/-- `gpu_write_gp0` in `GP0_COLLECTING` -/
def writeCollecting (val : Word) (s : State G) : Except Stop (State G) :=
  if h : s.collected < 16 then
    let s := { s with buf := s.buf.set s.collected val, collected := s.collected + 1 }
    if s.needed ≤ s.collected then gp0ExecuteCommand B { s with phase := .idle } else .ok s
  else .error .overrun

/-- The port after the first word of a command of several words -/
def State.begin (s : State G) (v : Word) (count : Nat) : State G :=
  { s with buf := s.buf.set 0 v, collected := 1, needed := count }

/-- `gpu_write_gp0` in `GP0_IDLE` -/
def writeIdle (val : Word) (s : State G) : Except Stop (State G) :=
  let count := gp0CommandWordCount (opcodeOf val)
  if count = 0 then .error (.unknown val)
  else if count < 0 then
    .ok { s with
      phase := if (opcodeOf val).getLsbD 4 then .polylineShaded else .polylineMono
      hasPrev := 0, gpu := B.polyline val s.gpu, ring := s.ring ++ [[val]] }
  else
    let s := { s with buf := s.buf.set 0 val, collected := 1, needed := count.toNat }
    if count = 1 then gp0ExecuteCommand B s else .ok { s with phase := .collecting }

def gpuWriteGp0 (val : Word) (s : State G) : Except Stop (State G) :=
  match s.phase with
  | .vramWrite => .ok (writeUpload B val s)
  | .polylineMono => .ok (writeMono B val s)
  | .polylineShaded => .ok (writeShaded B val s)
  | .collecting => writeCollecting B val s
  | .idle => writeIdle B val s

def gp1ResetCommandBuffer (s : State G) : State G :=
  { s with phase := .idle, collected := 0, needed := 0
           upload := { s.upload with remaining := 0#32 } }

inductive Op
  | gp0 (val : Word)
  | resetBuffer

def step : Op → State G → Option (State G)
  | .gp0 val, s => (gpuWriteGp0 B val s).toOption
  | .resetBuffer, s => some (gp1ResetCommandBuffer s)

/-- The states after `gpu_reset_state` and any words and resets that did not stop the machine -/
def Reached : State G → Prop :=
  Runs.Reached (step B) (fun _ _ => True) fun s => s.phase = .idle ∧ s.collected = 0 ∧ s.needed = 0

end

end PsxRecomp.Gp0
