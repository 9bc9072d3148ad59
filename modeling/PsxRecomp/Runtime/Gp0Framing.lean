import Mathlib.Tactic.Ring
import PsxRecomp.Runtime.Gp0

/-!
# `Runtime/Gp0Framing.lean` — which words make a GP0 command

`IsCommand` is the format of a command as the hardware defines it, from the bits of the opcode: the
fixed lengths, the data of an upload, polylines to their terminator. For a state in the middle of a
command, `Ends ws s` says that the words `ws` finish it.
-/

set_option autoImplicit false

namespace PsxRecomp.Gp0

open List Option BitVec State

/-! ## 1. The format of a command -/

inductive MonoTail : List Word → Prop
  | stop {v : Word} : terminator v = true → MonoTail [v]
  | vertex {v : Word} {ws : List Word} : terminator v = false → MonoTail ws → MonoTail (v :: ws)

/-- What follows the first vertex of a shaded polyline; only in the place of a colour there is an end. -/
inductive ShadedTail : List Word → Prop
  | stop {v : Word} : terminator v = true → ShadedTail [v]
  | vertex {c v : Word} {ws : List Word} :
      terminator c = false → ShadedTail ws → ShadedTail (c :: v :: ws)

inductive Kind
  | fixed (words : Nat) | upload | mono | shaded | unknown
deriving DecidableEq, Repr

/-- The format by the bits of the opcode: the top three give the class; in a polygon bit 4 is shading,
3 the fourth vertex and 2 the texture, in a line bit 4 is shading and 3 the polyline, in a rectangle
bits 4 and 3 are the size (none given by zero) and 2 the texture. -/
def kindOf (op : Opcode) : Kind :=
  let shaded := if op.getLsbD 4 then 1 else 0
  let textured := if op.getLsbD 2 then 1 else 0
  let vertices := if op.getLsbD 3 then 4 else 3
  match (op.extractLsb' 5 3).toNat with
  | 0 => .fixed (if op = 0x02#8 then 3 else 1)
  | 1 => .fixed (1 + vertices + textured * vertices + shaded * (vertices - 1))
  | 2 => if op.getLsbD 3 then (if op.getLsbD 4 then .shaded else .mono) else .fixed (3 + shaded)
  | 3 => .fixed (2 + textured + if op.extractLsb' 3 2 = 0#2 then 1 else 0)
  | 4 => .fixed 4
  | 5 => .upload
  | 6 => .fixed 3
  | _ => if op.getLsbD 4 = false ∨ op = 0xFF#8 then .fixed 1 else .unknown

def uploadWords (size : Word) : Nat := (widthOf size * heightOf size + 1) / 2

def IsCommand : List Word → Prop
  | [] => False
  | v :: ws =>
    match kindOf (opcodeOf v) with
    | .fixed n => (v :: ws).length = n
    | .upload => ∃ place size data, ws = place :: size :: data ∧ data.length = uploadWords size
    | .mono => MonoTail ws
    | .shaded => ∃ first rest, ws = first :: rest ∧ ShadedTail rest
    | .unknown => False

/-- What is recorded of a command: all of it, without the data of an upload or the body of a polyline -/
def recorded : List Word → List Word
  | [] => []
  | v :: ws =>
    match kindOf (opcodeOf v) with
    | .upload => (v :: ws).take 3
    | .mono => [v]
    | .shaded => [v]
    | _ => v :: ws

def irqRequest : Opcode := 0x1F#8

theorem wordCount_eq (op : Opcode) : gp0CommandWordCount op =
    match kindOf op with
    | .fixed n => (n : Int)
    | .upload => 3
    | .mono => -1
    | .shaded => -1
    | .unknown => 0 := by
  revert op
  decide +kernel

theorem handler_isSome (op : Opcode) (h : 0 < gp0CommandWordCount op) :
    (lookup handlers op).isSome = true ↔ op ≠ irqRequest := by
  revert op
  decide +kernel

theorem handler_upload (op : Opcode) : lookup handlers op = some .cpuToVram ↔ kindOf op = .upload := by
  revert op
  decide +kernel

theorem kind_bit4 (op : Opcode) : (kindOf op = .shaded → op.getLsbD 4 = true) ∧
    (kindOf op = .mono → op.getLsbD 4 = false) := by
  revert op
  decide +kernel

variable {n : Nat}

theorem kind_fixed_bounds {op : Opcode} (h : kindOf op = .fixed n) : 1 ≤ n ∧ n ≤ 12 := by
  have hall : ∀ op : Opcode, (match kindOf op with
      | .fixed n => decide (1 ≤ n ∧ n ≤ 12)
      | _ => true) = true := by decide +kernel
  have hop := hall op
  rw [h] at hop
  exact of_decide_eq_true hop

theorem ne_irqRequest {op : Opcode} (h : kindOf op ≠ .fixed 1) : op ≠ irqRequest := by
  rintro rfl
  exact h (by decide)

/-! ## 2. Ending what has begun -/
variable {ws : List Word} {v : Word} {u : Upload}

section
variable {G : Type} (B : Renderer G) {s s' : State G}

/-- The words finish the command the port is in, and none is left over. -/
def Ends : List Word → State G → State G → Prop
  | [], s, s' => s.phase = .idle ∧ s' = s
  | v :: ws, s, s' => s.phase ≠ .idle ∧ ∃ next, gpuWriteGp0 B v s = .ok next ∧ Ends ws next s'

theorem ends_idle (h : s.phase = .idle) (ws : List Word) : Ends B ws s s' ↔ ws = [] ∧ s' = s := by
  cases ws with
  | nil => simp [Ends, h]
  | cons v ws => simp [Ends, h]

variable {B} in
theorem ends_cons {next : State G} (h : s.phase ≠ .idle)
    (hw : gpuWriteGp0 B v s = .ok next) : Ends B (v :: ws) s s' ↔ Ends B ws next s' := by
  simp [Ends, h, hw]

/-! Polylines -/

theorem monoTail_cons : MonoTail (v :: ws) ↔
    (terminator v = true ∧ ws = []) ∨ (terminator v = false ∧ MonoTail ws) := by
  constructor
  · rintro (⟨ht⟩ | ⟨ht, hm⟩)
    · exact .inl ⟨ht, rfl⟩
    · exact .inr ⟨ht, hm⟩
  · rintro (⟨ht, rfl⟩ | ⟨ht, hm⟩)
    · exact .stop ht
    · exact .vertex ht hm

theorem shadedTail_cons {c : Word} : ShadedTail (c :: ws) ↔ (terminator c = true ∧ ws = []) ∨
      (terminator c = false ∧ ∃ v rest, ws = v :: rest ∧ ShadedTail rest) := by
  constructor
  · rintro (⟨ht⟩ | ⟨ht, hm⟩)
    · exact .inl ⟨ht, rfl⟩
    · exact .inr ⟨ht, _, _, rfl, hm⟩
  · rintro (⟨ht, rfl⟩ | ⟨ht, v, rest, rfl, hm⟩)
    · exact .stop ht
    · exact .vertex ht hm

/-- Which words finish a polyline -/
theorem ends_mono (h : s.phase = .polylineMono) (ws : List Word) :
    (∃ s', Ends B ws s s') ↔ MonoTail ws := by
  induction ws generalizing s with
  | nil =>
    constructor
    · rintro ⟨s', hidle, -⟩
      exact absurd (h.symm.trans hidle) nofun
    · intro hm
      cases hm
  | cons v ws ih =>
    have hwrite : gpuWriteGp0 B v s = .ok (writeMono B v s) := by
      simp [gpuWriteGp0, h]
    simp only [ends_cons (by rw [h]; nofun) hwrite, monoTail_cons, writeMono]
    cases hv : terminator v with
    | true => simp [ends_idle]
    | false =>
      simpa using ih (s := { s with gpu := B.polyWord s.hasPrev v s.gpu, hasPrev := 1 }) h

/-- Which words finish a shaded polyline -/
theorem ends_shaded (h : s.phase = .polylineShaded) (ws : List Word) :
    (∃ s', Ends B ws s s') ↔
      if s.hasPrev = 1 then ShadedTail ws else ∃ v rest, ws = v :: rest ∧ ShadedTail rest := by
  induction ws generalizing s with
  | nil =>
    constructor
    · rintro ⟨s', hidle, -⟩
      exact absurd (h.symm.trans hidle) nofun
    · intro hm
      split_ifs at hm
      · cases hm
      · obtain ⟨v, rest, hnil, -⟩ := hm
        cases hnil
  | cons v ws ih =>
    have hwrite : gpuWriteGp0 B v s = .ok (writeShaded B v s) := by
      simp [gpuWriteGp0, h]
    simp only [ends_cons (by rw [h]; nofun) hwrite]
    by_cases hone : s.hasPrev = 1
    · -- a colour, or the end
      simp only [hone, if_true, shadedTail_cons, writeShaded, one_ne_zero, if_false]
      cases hv : terminator v with
      | true => simp [ends_idle]
      | false => simpa using ih (s := { s with gpu := B.polyWord 1 v s.gpu, hasPrev := 2 }) h
    · -- a vertex
      have hnext : ∃ g, writeShaded B v s = { s with gpu := g, hasPrev := 1 } := by
        unfold writeShaded
        split_ifs <;> exact ⟨_, rfl⟩
      obtain ⟨g, hg⟩ := hnext
      rw [hg, ih (s := { s with gpu := g, hasPrev := 1 }) h]
      simp [hone]

/-! Uploads -/

def Upload.pos (u : Upload) : Nat := u.row * u.w + u.col

structure Upload.Ok (u : Upload) : Prop where
  width : u.w ≤ 0x400
  height : u.h ≤ 0x200
  col : u.col < u.w
  row : u.row < u.h

theorem Upload.Ok.area (h : u.Ok) :
    ∃ k, u.h = u.row + k + 1 ∧ u.w * u.h = u.row * u.w + u.w + u.w * k := by
  obtain ⟨k, hk⟩ := Nat.exists_eq_add_of_lt h.row
  refine ⟨k, hk, ?_⟩
  rw [hk]
  ring

theorem Upload.Ok.pos_lt (h : u.Ok) : u.pos < u.w * u.h := by
  have hcol := h.col
  obtain ⟨k, -, hmul⟩ := h.area
  unfold pos
  omega

theorem Upload.Ok.last_iff (h : u.Ok) :
    u.pos + 1 = u.w * u.h ↔ u.col + 1 = u.w ∧ u.row + 1 = u.h := by
  have hcol := h.col
  obtain ⟨k, hk, hmul⟩ := h.area
  unfold pos
  cases k with
  | zero => omega
  | succ k =>
    have : u.w ≤ u.w * (k + 1) := Nat.le_mul_of_pos_right _ (Nat.succ_pos k)
    omega

structure Painted (s s' : State G) : Prop where
  phase : s'.phase = s.phase
  ring : s'.ring = s.ring
  width : s'.upload.w = s.upload.w
  height : s'.upload.h = s.upload.h
  remaining : s'.upload.remaining = s.upload.remaining
  pos : s'.upload.pos = s.upload.pos + 1

theorem writePixel_spec (h : s.upload.Ok) (p : BitVec 16) :
    Painted s (writePixel B p s).1 ∧
      (writePixel B p s).2 = decide (s.upload.pos + 1 = s.upload.w * s.upload.h) ∧
      (s.upload.pos + 1 ≠ s.upload.w * s.upload.h → (writePixel B p s).1.upload.Ok) := by
  have hrow : (s.upload.row + 1) * s.upload.w = s.upload.row * s.upload.w + s.upload.w := by ring
  simp only [ne_eq, h.last_iff]
  unfold writePixel
  dsimp only
  split_ifs with hcol
  · refine ⟨⟨rfl, rfl, rfl, rfl, rfl, ?_⟩, by simp [hcol], fun hmore => ?_⟩
    · simp only [Upload.pos, hrow]
      omega
    · have := h.row
      exact ⟨h.width, h.height, (Nat.zero_le _).trans_lt h.col, by simp only; omega⟩
  · refine ⟨⟨rfl, rfl, rfl, rfl, rfl, ?_⟩, by simp [hcol], fun _ => ?_⟩
    · simp only [Upload.pos]
      omega
    · have := h.col
      exact ⟨h.width, h.height, by simp only; omega, h.row⟩

structure Uploading (s : State G) : Prop where
  phase : s.phase = .vramWrite
  ok : s.upload.Ok
  even : s.upload.pos % 2 = 0
  remaining : s.upload.remaining.toNat = (s.upload.w * s.upload.h - s.upload.pos + 1) / 2

theorem Uploading.write (h : Uploading s) (v : Word) :
    if s.upload.remaining.toNat = 1 then (writeUpload B v s).phase = .idle
    else Uploading (writeUpload B v s) ∧
      (writeUpload B v s).upload.remaining.toNat + 1 = s.upload.remaining.toNat := by
  have heven := h.even
  have hrem := h.remaining
  obtain ⟨hfirst, hdone, hok⟩ := writePixel_spec B h.ok (v.extractLsb' 0 16)
  unfold writeUpload
  generalize writePixel B (v.extractLsb' 0 16) s = r₁ at hfirst hdone hok ⊢
  obtain ⟨s₁, d₁⟩ := r₁
  dsimp only at hfirst hdone hok ⊢
  subst hdone
  by_cases hlast : s.upload.pos + 1 = s.upload.w * s.upload.h
  · have hone : s.upload.remaining.toNat = 1 := by omega
    simp only [hlast, decide_true, if_true, hone]
    rfl
  · have hok₁ := hok hlast
    have hlt₁ := hok₁.pos_lt
    obtain ⟨hsecond, hdone₂, hok₂⟩ := writePixel_spec B hok₁ (v.extractLsb' 16 16)
    generalize writePixel B (v.extractLsb' 16 16) s₁ = r₂ at hsecond hdone₂ hok₂ ⊢
    obtain ⟨s₂, d₂⟩ := r₂
    subst hdone₂
    rw [hfirst.width, hfirst.height, hfirst.pos] at hok₂ hlt₁
    simp only [hlast, decide_false, Bool.false_eq_true, if_false, hfirst.width, hfirst.height, hfirst.pos]
    by_cases hlast₂ : s.upload.pos + 1 + 1 = s.upload.w * s.upload.h
    · have hone : s.upload.remaining.toNat = 1 := by omega
      simp only [hlast₂, decide_true, if_true, hone]
      rfl
    · have hmany : s.upload.remaining.toNat ≠ 1 := by omega
      have hrem₂ : s₂.upload.remaining = s.upload.remaining := hsecond.remaining.trans hfirst.remaining
      have hsub : (s₂.upload.remaining - 1#32).toNat = s.upload.remaining.toNat - 1 := by
        rw [hrem₂, toNat_sub]
        simp
        omega
      have hne : ¬ s₂.upload.remaining - 1#32 = 0#32 := by
        intro hz
        rw [hz] at hsub
        simp at hsub
        omega
      simp only [hlast₂, decide_false, Bool.false_eq_true, if_false, hne, if_neg hmany]
      have hok' := hok₂ hlast₂
      have hpos : s₂.upload.pos = s.upload.pos + 2 := by rw [hsecond.pos, hfirst.pos]
      refine ⟨⟨hsecond.phase.trans (hfirst.phase.trans h.phase), ⟨hok'.width, hok'.height,
        hok'.col, hok'.row⟩, ?_, ?_⟩, ?_⟩
      · show s₂.upload.pos % 2 = 0
        omega
      · show (s₂.upload.remaining - 1#32).toNat =
          (s₂.upload.w * s₂.upload.h - s₂.upload.pos + 1) / 2
        rw [hsub, hsecond.width, hsecond.height, hfirst.width, hfirst.height]
        omega
      · show (s₂.upload.remaining - 1#32).toNat + 1 = _
        omega

/-- Which words finish an upload -/
theorem ends_upload (h : Uploading s) (ws : List Word) :
    (∃ s', Ends B ws s s') ↔ ws.length = s.upload.remaining.toNat := by
  induction ws generalizing s with
  | nil =>
    have hlt := h.ok.pos_lt
    have hrem := h.remaining
    constructor
    · rintro ⟨s', hidle, -⟩
      exact absurd (h.phase.symm.trans hidle) nofun
    · intro hzero
      simp only [length_nil] at hzero
      omega
  | cons v ws ih =>
    have hwrite : gpuWriteGp0 B v s = .ok (writeUpload B v s) := by
      simp [gpuWriteGp0, h.phase]
    have hnext := h.write B v
    simp only [ends_cons (by rw [h.phase]; nofun) hwrite, length_cons]
    split_ifs at hnext with hone
    · simp [ends_idle B hnext, hone]
    · rw [ih hnext.1]
      omega

/-! What is recorded -/

def Phase.Tail (p : Phase) : Prop := p = .vramWrite ∨ p = .polylineMono ∨ p = .polylineShaded

theorem writePixel_frame (p : BitVec 16) (s : State G) :
    (writePixel B p s).1.ring = s.ring ∧ (writePixel B p s).1.phase = s.phase := by
  unfold writePixel
  dsimp only
  split_ifs <;> exact ⟨rfl, rfl⟩

theorem writeUpload_frame (v : Word) (s : State G) :
    (writeUpload B v s).ring = s.ring ∧
      ((writeUpload B v s).phase = .idle ∨ (writeUpload B v s).phase = s.phase) := by
  obtain ⟨hring₁, hphase₁⟩ := writePixel_frame B (v.extractLsb' 0 16) s
  unfold writeUpload
  generalize writePixel B (v.extractLsb' 0 16) s = r₁ at hring₁ hphase₁ ⊢
  obtain ⟨hring₂, hphase₂⟩ := writePixel_frame B (v.extractLsb' 16 16) r₁.1
  dsimp only
  generalize writePixel B (v.extractLsb' 16 16) r₁.1 = r₂ at hring₂ hphase₂ ⊢
  split_ifs
  · exact ⟨hring₁, .inl rfl⟩
  · exact ⟨hring₂.trans hring₁, .inl rfl⟩
  · exact ⟨hring₂.trans hring₁, .inl rfl⟩
  · exact ⟨hring₂.trans hring₁, .inr (hphase₂.trans hphase₁)⟩

theorem write_tail (h : s.phase.Tail) (v : Word) : ∃ next, gpuWriteGp0 B v s = .ok next ∧
    next.ring = s.ring ∧ (next.phase = .idle ∨ next.phase = s.phase) := by
  rcases h with h | h | h
  · obtain ⟨hring, hphase⟩ := writeUpload_frame B v s
    exact ⟨writeUpload B v s, by simp only [gpuWriteGp0, h], hring, hphase⟩
  · refine ⟨writeMono B v s, by simp only [gpuWriteGp0, h], ?_⟩
    unfold writeMono
    split_ifs <;> simp
  · refine ⟨writeShaded B v s, by simp only [gpuWriteGp0, h], ?_⟩
    unfold writeShaded
    split_ifs <;> simp

theorem ends_ring (h : s.phase.Tail ∨ s.phase = .idle) (he : Ends B ws s s') :
    s'.ring = s.ring := by
  induction ws generalizing s with
  | nil => rw [he.2]
  | cons v ws ih =>
    obtain ⟨hbusy, next, hwrite, hrest⟩ := he
    have htail : s.phase.Tail := h.resolve_right hbusy
    obtain ⟨next', hwrite', hring, hphase⟩ := write_tail B htail v
    obtain rfl : next = next' := Except.ok.inj (hwrite.symm.trans hwrite')
    refine (ih ?_ hrest).trans hring
    rcases hphase with hphase | hphase
    · exact .inr hphase
    · exact .inl (hphase ▸ htail)

/-! Execution -/

def record (s : State G) : State G := { s with ring := s.ring ++ [s.buf.toList.take s.needed] }

theorem exec_irq (h : opcodeOf s.cmdWord = irqRequest) :
    gp0ExecuteCommand B s = .error (.unimplemented s.cmdWord) := by
  have hnone : lookup handlers irqRequest = none := by decide +kernel
  simp [gp0ExecuteCommand, h, hnone]

theorem exec_upload (h : kindOf (opcodeOf s.cmdWord) = .upload) :
    gp0ExecuteCommand B s = .ok (gp0ExecCpuToVram (record s)) := by
  simp only [gp0ExecuteCommand, (handler_upload _).mpr h]
  rfl

theorem exec_plain (hcount : 0 < gp0CommandWordCount (opcodeOf s.cmdWord))
    (hirq : opcodeOf s.cmdWord ≠ irqRequest) (hkind : kindOf (opcodeOf s.cmdWord) ≠ .upload) :
    ∃ g, gp0ExecuteCommand B s = .ok { record s with gpu := g } := by
  have hsome := (handler_isSome _ hcount).mpr hirq
  have hnot := mt (handler_upload _).mp hkind
  unfold gp0ExecuteCommand
  dsimp only
  split
  · rename_i hnone
    rw [hnone] at hsome
    cases hsome
  · rename_i hup
    exact absurd hup hnot
  · exact ⟨_, rfl⟩

theorem dimOr_bounds {d max : Nat} (hd : d ≤ max) (hmax : 0 < max) : 0 < dimOr d max ∧ dimOr d max ≤ max := by
  unfold dimOr
  split_ifs <;> omega

theorem widthOf_bounds (v : Word) : 0 < widthOf v ∧ widthOf v ≤ 0x400 := by
  refine dimOr_bounds ?_ (by decide)
  exact Nat.and_le_right.trans (by decide)

theorem heightOf_bounds (v : Word) : 0 < heightOf v ∧ heightOf v ≤ 0x200 := by
  refine dimOr_bounds ?_ (by decide)
  exact Nat.and_le_right.trans (by decide)

theorem uploadWords_bounds (size : Word) : 0 < uploadWords size ∧ uploadWords size < 2 ^ 32 := by
  obtain ⟨hw, hw'⟩ := widthOf_bounds size
  obtain ⟨hh, hh'⟩ := heightOf_bounds size
  have hpos := Nat.mul_pos hw hh
  have hle := Nat.mul_le_mul hw' hh'
  unfold uploadWords
  omega

theorem uploading_start (s : State G) : Uploading (gp0ExecCpuToVram s) ∧
    (gp0ExecCpuToVram s).upload.remaining.toNat = uploadWords s.sizeWord ∧
    (gp0ExecCpuToVram s).ring = s.ring := by
  obtain ⟨hw, hw'⟩ := widthOf_bounds s.buf[2]
  obtain ⟨hh, hh'⟩ := heightOf_bounds s.buf[2]
  obtain ⟨hpos, hlt⟩ := uploadWords_bounds s.buf[2]
  have hrem : (BitVec.ofNat 32 (uploadWords s.buf[2])).toNat = uploadWords s.buf[2] := by
    rw [toNat_ofNat, Nat.mod_eq_of_lt hlt]
  have hne : BitVec.ofNat 32 (uploadWords s.buf[2]) ≠ 0#32 := by
    intro hzero
    rw [hzero] at hrem
    simp at hrem
    omega
  have hstart : gp0ExecCpuToVram s = { s with phase := .vramWrite, upload :=
      { x := (s.buf[1] &&& 0x3FF#32).toNat, y := ((s.buf[1] >>> 16) &&& 0x1FF#32).toNat
        w := widthOf s.buf[2], h := heightOf s.buf[2], col := 0, row := 0
        remaining := BitVec.ofNat 32 (uploadWords s.buf[2]) } } := if_pos hne
  rw [hstart]
  refine ⟨⟨rfl, ⟨hw', hh', hw, hh⟩, by simp [Upload.pos], hrem.trans ?_⟩, hrem, rfl⟩
  simp [Upload.pos, uploadWords]

/-! Collecting -/

def State.soFar (s : State G) : List Word := s.buf.toList.take s.collected

/-- The port is collecting the words of a command it knows. -/
structure Collecting (s : State G) : Prop where
  phase : s.phase = .collecting
  count : gp0CommandWordCount (opcodeOf s.cmdWord) = s.needed
  pos : 1 ≤ s.collected
  lt : s.collected < s.needed

theorem Collecting.kind (h : Collecting s) : kindOf (opcodeOf s.cmdWord) = .fixed s.needed ∨
    (kindOf (opcodeOf s.cmdWord) = .upload ∧ s.needed = 3) := by
  have hcount := h.count
  have hlt := h.lt
  rw [wordCount_eq] at hcount
  cases hk : kindOf (opcodeOf s.cmdWord) <;> simp only [hk] at hcount
  · rw [Nat.cast_inj.mp hcount]
    exact .inl rfl
  · exact .inr ⟨rfl, by omega⟩
  · omega
  · omega
  · omega

theorem Collecting.needed_le (h : Collecting s) : s.needed ≤ 12 := by
  rcases h.kind with hk | ⟨-, hk⟩
  · exact (kind_fixed_bounds hk).2
  · omega

theorem Collecting.lt_sixteen (h : Collecting s) : s.collected < 16 := by
  have := h.lt
  have := h.needed_le
  omega

def State.take (s : State G) (v : Word) (h : s.collected < 16) : State G :=
  { s with buf := s.buf.set s.collected v, collected := s.collected + 1 }

theorem soFar_take (v : Word) (h : s.collected < 16) : (s.take v h).soFar = s.soFar ++ [v] := by
  unfold soFar State.take
  simp only [Vector.toList_set]
  rw [take_succ_eq_append_getElem (by simpa using h), take_set_of_le le_rfl]
  simp

theorem buf_zero_take (v : Word) (h : s.collected < 16) (hpos : 1 ≤ s.collected) :
    (s.take v h).cmdWord = s.cmdWord :=
  Vector.getElem_set_ne h (by decide) (by omega)

theorem Collecting.take (h : Collecting s) (v : Word) (hlt : s.collected < 16)
    (hmore : s.collected + 1 < s.needed) : Collecting (s.take v hlt) where
  phase := h.phase
  count := by
    rw [buf_zero_take v hlt h.pos]
    exact h.count
  pos := Nat.le_add_left ..
  lt := hmore

theorem Collecting.write (h : Collecting s) (v : Word) (hlt : s.collected < 16) :
    gpuWriteGp0 B v s = if s.collected + 1 < s.needed then .ok (s.take v hlt)
      else gp0ExecuteCommand B { s.take v hlt with phase := .idle } := by
  simp only [gpuWriteGp0, h.phase, writeCollecting, hlt, dite_true, State.take]
  by_cases hmore : s.collected + 1 < s.needed
  · rw [if_neg (Nat.not_le.mpr hmore), if_pos hmore]
  · rw [if_pos (Nat.not_lt.mp hmore), if_neg hmore]

theorem soFar_eq_cons (h : 1 ≤ s.collected) : ∃ rest, s.soFar = s.cmdWord :: rest := by
  obtain ⟨k, hk⟩ := Nat.exists_eq_add_of_le' h
  obtain ⟨a, rest, hl⟩ := exists_cons_of_length_pos (show 0 < s.buf.toList.length by simp)
  have hzero : s.cmdWord = a := by
    rw [cmdWord, ← Vector.getElem_toList (by simp)]
    simp [hl]
  exact ⟨rest.take k, by rw [soFar, hk, hl, take_succ_cons, hzero]⟩

theorem isCommand_fixed (hk : kindOf (opcodeOf v) = .fixed n) :
    IsCommand (v :: ws) ↔ (v :: ws).length = n := by
  simp [IsCommand, hk]

theorem isCommand_upload (hk : kindOf (opcodeOf v) = .upload) :
    IsCommand (v :: ws) ↔
      ∃ place size data, ws = place :: size :: data ∧ data.length = uploadWords size := by
  simp [IsCommand, hk]

theorem length_soFar (h : s.collected < 16) : s.soFar.length = s.collected := by
  simp [soFar]
  omega

theorem Collecting.last (h : Collecting s) (hlt : s.collected < 16) (hlast : s.collected + 1 = s.needed)
    (v : Word) (ws : List Word) :
    ∃ next, gpuWriteGp0 B v s = .ok next ∧ (next.phase.Tail ∨ next.phase = .idle) ∧
      next.ring = s.ring ++ [s.soFar ++ [v]] ∧
      ((∃ s', Ends B ws next s') ↔ IsCommand (s.soFar ++ v :: ws)) := by
  have hbuf := buf_zero_take v hlt h.pos
  have hwrite := h.write B v hlt
  rw [if_neg (by omega)] at hwrite
  have hring : (record { s.take v hlt with phase := .idle }).ring = s.ring ++ [s.soFar ++ [v]] := by
    rw [← soFar_take v hlt]
    show s.ring ++ [((s.take v hlt).buf.toList).take s.needed] = _
    rw [← hlast]
    rfl
  obtain ⟨rest, hrest⟩ := soFar_eq_cons h.pos
  have hlen := length_soFar hlt
  rw [hrest] at hlen
  rw [hwrite]
  rcases h.kind with hk | ⟨hk, hthree⟩
  · -- a command of fixed length is over
    have hirq : opcodeOf (s.take v hlt).cmdWord ≠ irqRequest := by
      rw [hbuf]
      refine ne_irqRequest fun hone => ?_
      have hneeded := Kind.fixed.inj (hk.symm.trans hone)
      have := h.pos
      omega
    obtain ⟨g, hexec⟩ := exec_plain B (s := { s.take v hlt with phase := .idle })
      (by rw [hbuf, h.count]; have := h.lt; omega) hirq (by rw [hbuf, hk]; nofun)
    refine ⟨_, hexec, .inr rfl, hring, ?_⟩
    rw [hrest, List.cons_append, isCommand_fixed hk]
    simp only [ends_idle B (s := { record { s.take v hlt with phase := .idle } with gpu := g }) rfl]
    simp only [length_cons, length_append] at hlen ⊢
    constructor
    · rintro ⟨_, rfl, -⟩
      simp only [length_nil]
      omega
    · intro hend
      exact ⟨_, eq_nil_of_length_eq_zero (by omega), rfl⟩
  · -- the data of an upload follow
    obtain ⟨place, rfl⟩ : ∃ place, rest = [place] := length_eq_one_iff.mp (by
      simp only [length_cons] at hlen
      omega)
    obtain ⟨hup, hrem, hring'⟩ := uploading_start (record { s.take v hlt with phase := .idle })
    have hsize : (s.take v hlt).buf[2] = v := by
      have htwo : s.collected = 2 := by omega
      simp [State.take, htwo]
    refine ⟨_, exec_upload B (by rw [hbuf]; exact hk), .inl (.inl hup.phase), hring'.trans hring, ?_⟩
    rw [ends_upload B hup, hrem, hrest, List.cons_append, isCommand_upload hk]
    show ws.length = uploadWords (s.take v hlt).buf[2] ↔ _
    rw [hsize]
    simp

theorem not_isCommand_soFar (h : Collecting s) : ¬ IsCommand s.soFar := by
  have hlen := length_soFar h.lt_sixteen
  have hmore := h.lt
  obtain ⟨rest, hrest⟩ := soFar_eq_cons h.pos
  rw [hrest] at hlen ⊢
  rcases h.kind with hk | ⟨hk, hthree⟩
  · rw [isCommand_fixed hk]
    omega
  · rw [isCommand_upload hk]
    rintro ⟨place, size, data, rfl, -⟩
    simp only [length_cons] at hlen
    omega

theorem recorded_soFar (h : Collecting s) (hlt : s.collected < 16)
    (hlast : s.collected + 1 = s.needed) (hc : IsCommand (s.soFar ++ v :: ws)) :
    recorded (s.soFar ++ v :: ws) = s.soFar ++ [v] := by
  have hlen := length_soFar hlt
  obtain ⟨rest, hrest⟩ := soFar_eq_cons h.pos
  rw [hrest] at hlen hc ⊢
  simp only [List.cons_append, length_cons] at hlen hc ⊢
  rcases h.kind with hk | ⟨hk, hthree⟩
  · rw [isCommand_fixed hk] at hc
    simp only [length_cons, length_append] at hc
    obtain rfl : ws = [] := eq_nil_of_length_eq_zero (by omega)
    simp [recorded, hk]
  · obtain ⟨place, rfl⟩ : ∃ place, rest = [place] := length_eq_one_iff.mp (by omega)
    simp only [recorded, hk]
    rfl

/-- Which words finish a command whose words are being collected -/
theorem ends_collecting (h : Collecting s) (ws : List Word) :
    ((∃ s', Ends B ws s s') ↔ IsCommand (s.soFar ++ ws)) ∧
      ∀ s', Ends B ws s s' → s'.ring = s.ring ++ [recorded (s.soFar ++ ws)] := by
  induction ws generalizing s with
  | nil =>
    have hbusy : ∀ s', ¬ Ends B [] s s' := fun s' he => absurd (h.phase.symm.trans he.1) nofun
    rw [append_nil]
    refine ⟨iff_of_false (fun ⟨s', he⟩ => hbusy s' he) (not_isCommand_soFar h), fun s' he => ?_⟩
    exact absurd he (hbusy s')
  | cons v ws ih =>
    have hlt := h.lt_sixteen
    have hne : s.phase ≠ .idle := by
      rw [h.phase]
      nofun
    by_cases hmore : s.collected + 1 < s.needed
    · have hwrite := h.write B v hlt
      rw [if_pos hmore] at hwrite
      have hnext := ih (h.take v hlt hmore)
      rw [soFar_take, List.append_assoc] at hnext
      simp only [ends_cons hne hwrite]
      exact hnext
    · have hlast : s.collected + 1 = s.needed := by
        have := h.lt
        omega
      obtain ⟨next, hwrite, hphase, hring, hends⟩ := h.last B hlt hlast v ws
      simp only [ends_cons hne hwrite]
      refine ⟨hends, fun s' he => ?_⟩
      rw [ends_ring B hphase he, hring, recorded_soFar h hlt hlast (hends.mp ⟨s', he⟩)]

/-! ## 3. From idle to idle -/

/-- The words are one command: the first starts it and the last ends it. -/
def Takes : List Word → State G → State G → Prop
  | [], _, _ => False
  | v :: ws, s, s' => ∃ next, gpuWriteGp0 B v s = .ok next ∧ Ends B ws next s'

theorem buf_begin (v : Word) (n : Nat) : (s.begin v n).cmdWord = v := by
  simp [begin, cmdWord]

theorem write_first (h : s.phase = .idle) (v : Word) :
    gpuWriteGp0 B v s = match kindOf (opcodeOf v) with
      | .unknown => .error (.unknown v)
      | .mono => .ok { s with
          phase := .polylineMono, hasPrev := 0, gpu := B.polyline v s.gpu, ring := s.ring ++ [[v]] }
      | .shaded => .ok { s with
          phase := .polylineShaded, hasPrev := 0, gpu := B.polyline v s.gpu, ring := s.ring ++ [[v]] }
      | .upload => .ok { s.begin v 3 with phase := .collecting }
      | .fixed n =>
        if n = 1 then gp0ExecuteCommand B (s.begin v 1) else .ok { s.begin v n with phase := .collecting } := by
  obtain ⟨hshaded, hmono⟩ := kind_bit4 (opcodeOf v)
  have hidle : gpuWriteGp0 B v s = writeIdle B v s := by
    unfold gpuWriteGp0
    rw [h]
  simp only [hidle, writeIdle, wordCount_eq]
  cases hk : kindOf (opcodeOf v) with
  | fixed n =>
    obtain ⟨hpos, -⟩ := kind_fixed_bounds hk
    have hne : ¬ ((n : Int) = 0) := by omega
    have hnn : ¬ ((n : Int) < 0) := by omega
    by_cases hone : n = 1
    · subst hone
      rfl
    · have hone' : ¬ ((n : Int) = 1) := by omega
      simp only [hne, hnn, hone, hone', if_false, Int.toNat_natCast]
      rfl
  | upload => rfl
  | mono =>
    simp only [hmono hk]
    rfl
  | shaded =>
    simp only [hshaded hk]
    rfl
  | unknown => rfl

theorem collecting_begin (hcount : gp0CommandWordCount (opcodeOf v) = n)
    (hn : 1 < n) : Collecting { s.begin v n with phase := .collecting } where
  phase := rfl
  count := (congrArg (fun w => gp0CommandWordCount (opcodeOf w)) (buf_begin v n)).trans hcount
  pos := le_rfl
  lt := hn

theorem soFar_begin (v : Word) (n : Nat) (p : Phase) :
    State.soFar { s.begin v n with phase := p } = [v] := by
  obtain ⟨a, rest, hl⟩ := exists_cons_of_length_pos (show 0 < s.buf.toList.length by simp)
  show ((s.buf.set 0 v).toList).take 1 = [v]
  rw [Vector.toList_set, hl]
  rfl

/-- A first word that is not a whole command is stored, and the port collects the others. -/
theorem write_collects (h : s.phase = .idle) (hone : kindOf (opcodeOf v) ≠ .fixed 1)
    (hk : kindOf (opcodeOf v) = .upload ∨ ∃ n, kindOf (opcodeOf v) = .fixed n) :
    ∃ next, gpuWriteGp0 B v s = .ok next ∧ Collecting next ∧ next.soFar = [v] ∧ next.ring = s.ring := by
  have hfirst := write_first B h v
  have hcount := wordCount_eq (opcodeOf v)
  rcases hk with hk | ⟨n, hk⟩
  · rw [hk] at hfirst hcount
    exact ⟨_, hfirst, collecting_begin hcount (by decide), soFar_begin .., rfl⟩
  · obtain ⟨hpos, -⟩ := kind_fixed_bounds hk
    have hn : n ≠ 1 := fun h1 => hone (h1 ▸ hk)
    simp only [hk, if_neg hn] at hfirst hcount
    exact ⟨_, hfirst, collecting_begin hcount (by omega), soFar_begin .., rfl⟩

theorem takes_of_collecting {next : State G}
    (hwrite : gpuWriteGp0 B v s = .ok next) (hc : Collecting next) (hso : next.soFar = [v])
    (hring : next.ring = s.ring) :
    ((∃ s', Takes B (v :: ws) s s') ↔ IsCommand (v :: ws)) ∧
      ∀ s', Takes B (v :: ws) s s' → s'.ring = s.ring ++ [recorded (v :: ws)] := by
  have hends := ends_collecting B hc ws
  rw [hso, hring] at hends
  simp only [Takes, hwrite, Except.ok.injEq, exists_eq_left']
  exact hends

theorem write_one (h : s.phase = .idle) (hk : kindOf (opcodeOf v) = .fixed 1) :
    (opcodeOf v = irqRequest ∧ gpuWriteGp0 B v s = .error (.unimplemented v)) ∨
      opcodeOf v ≠ irqRequest ∧ ∃ next, gpuWriteGp0 B v s = .ok next ∧ next.phase = .idle ∧
        next.ring = s.ring ++ [[v]] := by
  have hfirst : gpuWriteGp0 B v s = gp0ExecuteCommand B (s.begin v 1) := by
    rw [write_first B h v, hk]
    rfl
  have hbuf := buf_begin (s := s) v 1
  rw [hfirst]
  by_cases hirq : opcodeOf v = irqRequest
  · have hstop := exec_irq B (s := s.begin v 1) (by rw [hbuf]; exact hirq)
    rw [hbuf] at hstop
    exact .inl ⟨hirq, hstop⟩
  · have hcount : gp0CommandWordCount (opcodeOf v) = 1 := by
      rw [wordCount_eq, hk]
      rfl
    obtain ⟨g, hexec⟩ := exec_plain B (s := s.begin v 1) (by rw [hbuf, hcount]; decide)
      (by rw [hbuf]; exact hirq) (by rw [hbuf, hk]; nofun)
    have hso : (s.begin v 1).soFar = [v] := soFar_begin v 1 s.phase
    refine .inr ⟨hirq, _, hexec, h, ?_⟩
    rw [← hso]
    rfl

theorem takes_one (h : s.phase = .idle) (hk : kindOf (opcodeOf v) = .fixed 1) (ws : List Word) :
    ((∃ s', Takes B (v :: ws) s s') ↔ IsCommand (v :: ws) ∧ opcodeOf v ≠ irqRequest) ∧
      ∀ s', Takes B (v :: ws) s s' → s'.ring = s.ring ++ [recorded (v :: ws)] := by
  rcases write_one B h hk with ⟨hirq, hwrite⟩ | ⟨hirq, next, hwrite, hidle, hring⟩
  · simp [Takes, hwrite, hirq]
  · have hends : ∀ s', Ends B ws next s' ↔ ws = [] ∧ s' = next := fun s' => ends_idle B hidle ws
    simp only [Takes, hwrite, Except.ok.injEq, exists_eq_left', hends, recorded, hk,
      isCommand_fixed hk, and_iff_left hirq]
    constructor
    · simp
    · rintro s' ⟨rfl, rfl⟩
      exact hring

theorem takes_iff (h : s.phase = .idle) (ws : List Word) :
    ((∃ s', Takes B ws s s') ↔ IsCommand ws ∧ ∀ v ∈ ws.head?, opcodeOf v ≠ irqRequest) ∧
      ∀ s', Takes B ws s s' → s'.ring = s.ring ++ [recorded ws] := by
  cases ws with
  | nil => simp [Takes, IsCommand]
  | cons v ws =>
    simp only [head?_cons, mem_def, some.injEq, forall_eq']
    by_cases hone : kindOf (opcodeOf v) = .fixed 1
    · exact takes_one B h hone ws
    have hfirst := write_first B h v
    rw [and_iff_left (ne_irqRequest hone)]
    cases hk : kindOf (opcodeOf v) with
    | unknown => simp [Takes, hfirst, IsCommand, hk]
    | mono =>
      simp only [Takes, hfirst, Except.ok.injEq, exists_eq_left', IsCommand, hk, recorded]
      exact ⟨ends_mono B rfl ws, fun s' he => ends_ring B (.inl (.inr (.inl rfl))) he⟩
    | shaded =>
      simp only [Takes, hfirst, Except.ok.injEq, exists_eq_left', IsCommand, hk, recorded]
      exact ⟨ends_shaded B rfl ws, fun s' he => ends_ring B (.inl (.inr (.inr rfl))) he⟩
    | upload =>
      obtain ⟨next, hwrite, hc, hso, hring⟩ := write_collects B h hone (.inl hk)
      exact takes_of_collecting B hwrite hc hso hring
    | fixed n =>
      obtain ⟨next, hwrite, hc, hso, hring⟩ := write_collects B h hone (.inr ⟨n, hk⟩)
      exact takes_of_collecting B hwrite hc hso hring

/-! ## 4. Every reachable state -/

/-- While words are collected, they are those of the command that was started. -/
def Framed (s : State G) : Prop := s.phase = .collecting → Collecting s

theorem framed_of_ne (h : s.phase ≠ .collecting) : Framed s := fun hc => absurd hc h

theorem framed_tail (h : s.phase.Tail ∨ s.phase = .idle) : Framed s := by
  apply framed_of_ne
  rcases h with (h | h | h) | h <;> rw [h] <;> nofun

/-- What a word can do: it is taken, or the port is idle and it starts no command. -/
theorem write_cases (h : Framed s) (v : Word) :
    (∃ next, gpuWriteGp0 B v s = .ok next ∧ Framed next ∧
        ¬ (s.phase = .idle ∧ opcodeOf v = irqRequest)) ∨
      (s.phase = .idle ∧ opcodeOf v ≠ irqRequest ∧ gpuWriteGp0 B v s = .error (.unknown v)) ∨
      (s.phase = .idle ∧ opcodeOf v = irqRequest ∧ gpuWriteGp0 B v s = .error (.unimplemented v)) := by
  by_cases hidle : s.phase = .idle
  · by_cases hone : kindOf (opcodeOf v) = .fixed 1
    · rcases write_one B hidle hone with ⟨hirq, hwrite⟩ | ⟨hirq, next, hwrite, hnext, -⟩
      · exact .inr (.inr ⟨hidle, hirq, hwrite⟩)
      · exact .inl ⟨next, hwrite, framed_tail (.inr hnext), fun ⟨_, he⟩ => hirq he⟩
    have hne := ne_irqRequest hone
    have hfirst := write_first B hidle v
    cases hk : kindOf (opcodeOf v) with
    | fixed n =>
      obtain ⟨next, hwrite, hc, -⟩ := write_collects B hidle hone (.inr ⟨n, hk⟩)
      exact .inl ⟨next, hwrite, fun _ => hc, fun hirq => hne hirq.2⟩
    | upload =>
      obtain ⟨next, hwrite, hc, -⟩ := write_collects B hidle hone (.inl hk)
      exact .inl ⟨next, hwrite, fun _ => hc, fun hirq => hne hirq.2⟩
    | mono | shaded =>
      simp only [hk] at hfirst
      exact .inl ⟨_, hfirst, framed_of_ne nofun, fun hirq => hne hirq.2⟩
    | unknown =>
      simp only [hk] at hfirst
      exact .inr (.inl ⟨hidle, hne, hfirst⟩)
  · -- in the middle of a command every word is taken
    suffices hok : ∃ next, gpuWriteGp0 B v s = .ok next ∧ Framed next by
      obtain ⟨next, hwrite, hnext⟩ := hok
      exact .inl ⟨next, hwrite, hnext, fun ⟨hi, _⟩ => hidle hi⟩
    by_cases hcoll : s.phase = .collecting
    · have hc := h hcoll
      have hmore := hc.lt
      have hlt := hc.lt_sixteen
      by_cases hnext : s.collected + 1 < s.needed
      · have hwrite := hc.write B v hlt
        rw [if_pos hnext] at hwrite
        exact ⟨_, hwrite, fun _ => hc.take v hlt hnext⟩
      · obtain ⟨next, hwrite, hphase, -⟩ := hc.last B hlt (by omega) v []
        exact ⟨next, hwrite, framed_tail hphase⟩
    · have htail : s.phase.Tail := by
        cases hp : s.phase with
        | idle => exact absurd hp hidle
        | collecting => exact absurd hp hcoll
        | vramWrite => exact .inl rfl
        | polylineMono => exact .inr (.inl rfl)
        | polylineShaded => exact .inr (.inr rfl)
      obtain ⟨next, hwrite, -, hphase⟩ := write_tail B htail v
      refine ⟨next, hwrite, framed_tail ?_⟩
      rcases hphase with hp | hp
      · exact .inr hp
      · exact .inl (hp ▸ htail)

theorem reached_framed (h : Reached B s) : Framed s := by
  refine Runs.Reached.invariant (I := Framed) ?_ ?_ h
  · rintro s ⟨hidle, -⟩
    exact framed_tail (.inr hidle)
  · intro op s s' hs _ hstep
    cases op with
    | gp0 v =>
      rcases write_cases B hs v with ⟨next, hwrite, hnext, -⟩ | ⟨-, -, hwrite⟩ | ⟨-, -, hwrite⟩ <;>
        simp only [step, hwrite, Except.toOption, some.injEq, reduceCtorEq] at hstep
      exact hstep ▸ hnext
    | resetBuffer =>
      simp only [step, some.injEq] at hstep
      exact framed_tail (.inr (hstep ▸ rfl))

/-- The port in any state it reaches by words and resets of its buffer. Idle, it takes exactly the words
of one command, executes it, and is idle again after the last of them and not before; a command whose
first word is the interrupt request 0x1F is not taken, which has a word count but no handler. No word is
stored behind the buffer, and "unimplemented command" stops the machine for an interrupt request that
comes as a command and for nothing else. -/
theorem gp0_framing (h : Reached B s) :
    (s.phase = .idle → ∀ ws,
      ((∃ s', Takes B ws s s') ↔ IsCommand ws ∧ ∀ v ∈ ws.head?, opcodeOf v ≠ irqRequest) ∧
        ∀ s', Takes B ws s s' → s'.ring = s.ring ++ [recorded ws]) ∧
    (∀ v, gpuWriteGp0 B v s ≠ .error .overrun) ∧
    (∀ v, (∃ w, gpuWriteGp0 B v s = .error (.unimplemented w)) ↔
      s.phase = .idle ∧ opcodeOf v = irqRequest) := by
  have hframed := reached_framed B h
  refine ⟨fun hidle ws => takes_iff B hidle ws, fun v => ?_, fun v => ?_⟩
  · rcases write_cases B hframed v with ⟨next, hwrite, -⟩ | ⟨-, -, hwrite⟩ | ⟨-, -, hwrite⟩ <;>
      rw [hwrite] <;> nofun
  · rcases write_cases B hframed v with
      ⟨next, hwrite, -, hno⟩ | ⟨-, hirq, hwrite⟩ | ⟨hidle, hirq, hwrite⟩
    · exact iff_of_false (by simp [hwrite]) hno
    · exact iff_of_false (by simp [hwrite]) fun ⟨_, he⟩ => hirq he
    · exact iff_of_true ⟨v, hwrite⟩ ⟨hidle, hirq⟩

end

def blank : Renderer Unit where
  exec _ _ _ := ()
  pixel _ _ _ _ := ()
  uploaded _ _ _ _ _ := ()
  polyline _ _ := ()
  polyWord _ _ _ := ()

def powerOn : State Unit where
  phase := .idle
  buf := .replicate 16 0#32
  collected := 0
  needed := 0
  upload := {}
  hasPrev := 0
  ring := []
  gpu := ()

/-- A quad of one colour -/
theorem gp0_framing_quad : Reached blank powerOn ∧
    ∃ s', Takes blank [0x28FFFFFF#32, 0#32, 64#32, 0x400000#32, 0x400040#32] powerOn s' := by
  have hreached : Reached blank powerOn := .start ⟨rfl, rfl, rfl⟩
  refine ⟨hreached, ((gp0_framing blank hreached).1 rfl _).1.mpr ⟨?_, ?_⟩⟩
  · show 5 = 5
    rfl
  · intro v hv
    cases hv
    decide

/-- The first word after a reset: 0x1F is a command of one word, and there is no code for it. -/
theorem irq_request_halts : Reached blank powerOn ∧
    gp0CommandWordCount (opcodeOf 0x1F000000#32) = 1 ∧ IsCommand [0x1F000000#32] ∧
    gpuWriteGp0 blank 0x1F000000#32 powerOn = .error (.unimplemented 0x1F000000#32) := by
  refine ⟨.start ⟨rfl, rfl, rfl⟩, by decide, ?_, rfl⟩
  show 1 = 1
  rfl

end PsxRecomp.Gp0
