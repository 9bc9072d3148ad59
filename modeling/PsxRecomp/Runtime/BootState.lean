import Mathlib.Data.List.Basic
import PsxRecomp.Lib.Words
import PsxRecomp.Machine.Cpu

/-!
# `Runtime/BootState.lean` — loading a state file

`boot_state_load`: the key in the header, then the sections one after the other, each applied as soon as
it is read, and at the end the check that all fourteen were there. A section is either refused or
applied whole, and nothing puts it back.

The machine is the bytes of its fourteen sections, in the order their tables list the fields. Left out:
the page generations of the overlay loader, which a RAM section bumps, and what is printed. An
allocation may fail: `alloc` says which do.
-/

set_option autoImplicit false

namespace PsxRecomp.BootState

open Option

abbrev Byte := BitVec 8

/-! ## 1. Sections -/

/-- `BS_SEC_*` -/
inductive Section
  | cpu | ram | spad | irq | timer | clock | gpu | vram | spu | spuram | cdrom | dma | sio | dirty
deriving DecidableEq, Repr

namespace Section

def all : List Section :=
  [cpu, ram, spad, irq, timer, clock, gpu, vram, spu, spuram, cdrom, dma, sio, dirty]

def tag : Section → Word
  | cpu => 0x01#32
  | ram => 0x02#32
  | spad => 0x03#32
  | irq => 0x04#32
  | timer => 0x05#32
  | clock => 0x06#32
  | gpu => 0x07#32
  | vram => 0x08#32
  | spu => 0x09#32
  | spuram => 0x0A#32
  | cdrom => 0x0B#32
  | dma => 0x0C#32
  | sio => 0x0D#32
  | dirty => 0x0E#32

def ofTag (w : Word) : Option Section := all.find? (·.tag = w)

end Section

/-- The build: the key of a state file, and what the tables of the modules add up to -/
structure Build where
  biosChecksum : Word
  entryPc : Word
  codegenHash : Word
  abiTag : Word
  codegenVer : Word
  /-- `gpu_snapshot_bytes` and so on -/
  gpu : Nat
  spu : Nat
  spuram : Nat
  cdrom : Nat
  dma : Nat
  sio : Nat

namespace Build
variable (e : Build)

/-- The length `apply_section` asks for; a bitmap section may have another -/
def payload : Section → Nat
  | .cpu => 524
  | .ram => 0x200000
  | .spad => 0x400
  | .irq => 8
  | .timer => 52
  | .clock => 8
  | .gpu => e.gpu
  | .vram => 0x100000
  | .spu => e.spu
  | .spuram => e.spuram
  | .cdrom => e.cdrom
  | .dma => e.dma
  | .sio => e.sio
  | .dirty => 64

/-- The bytes of a section in the machine: those of the payload, without the padding of `TimerRegs` -/
def state : Section → Nat
  | .timer => 48
  | t => e.payload t

end Build

abbrev Machine (e : Build) : Type := (t : Section) → Fin (e.state t) → Byte

def wordAt (p : List Byte) (off : Nat) : Word := Words.leWord (fun i => p.getD i 0#8) off

def wordBytes (w : Word) : List Byte :=
  [w.extractLsb' 0 8, w.extractLsb' 8 8, w.extractLsb' 16 8, w.extractLsb' 24 8]

/-- `cpu->pc = c->pc ? c->pc : entry_pc` -/
def fixPc (entryPc : Word) (p : List Byte) : List Byte :=
  p.take 128 ++ (if wordAt p 128 ≠ 0#32 then (p.drop 128).take 4 else wordBytes entryPc) ++ p.drop 132

/-- The fields of `TimerRegs`; `counter` and `target` are followed by two bytes of padding. -/
def timerFields (p : List Byte) : List Byte := p.take 6 ++ (p.drop 8).take 18 ++ p.drop 28

variable {e : Build}

variable (e) in
/-- What `apply_section` writes, from the start of the section on; `none` if it refuses the length -/
def image (t : Section) (p : List Byte) : Option (List Byte) :=
  match t with
  | .dirty => if p.length % 4 = 0 then some (p.take 64) else none
  | .cpu => if p.length = e.payload .cpu then some (fixPc e.entryPc p) else none
  | .timer => if p.length = e.payload .timer then some (timerFields p) else none
  | t => if p.length = e.payload t then some p else none

/-- A `memcpy` to the start of a section -/
def Machine.put (m : Machine e) (t : Section) (img : List Byte) : Machine e :=
  Function.update m t fun i => (img[i.val]?).getD (m t i)

def applySection (tag : Word) (p : List Byte) (m : Machine e) : Option (Machine e) :=
  (Section.ofTag tag).bind fun t => (image e t p).map (m.put t)

/-! ## 2. The file -/

/-- `fread`: all of the bytes, or failure -/
def fread (n : Nat) (f : List Byte) : Option (List Byte × List Byte) :=
  if n ≤ f.length then some (f.take n, f.drop n) else none

/-- `sizeof(BootStateHeader)` -/
def headerSize : Nat := 36

/-- `BOOT_STATE_MAGIC`, `BOOT_STATE_VERSION` -/
def magic : Word := 0x50535842#32
def version : Word := 2#32

variable (e) in
def keyOk (h : List Byte) : Bool :=
  wordAt h 0 = magic ∧ wordAt h 4 = version ∧ wordAt h 8 = e.biosChecksum ∧ wordAt h 12 = e.entryPc ∧
    wordAt h 16 = e.codegenHash ∧ wordAt h 20 = e.abiTag ∧ wordAt h 24 = e.codegenVer

/-- `h.section_count` -/
def sectionCount (h : List Byte) : Nat := (wordAt h 28).toNat

/-- The `uint64_t` length of a section -/
def lengthAt (p : List Byte) : Nat := (wordAt p 0).toNat + (wordAt p 4).toNat * 2 ^ 32

/-- `64u * 1024u * 1024u` -/
def lengthCap : Nat := 0x4000000

/-- The reading part of the loop: tag and payload of a section, and the rest of the file -/
def readRecord (alloc : Bool) (f : List Byte) : Option (Word × List Byte × List Byte) := do
  let (hdr, f) ← fread 8 f
  let (len, f) ← fread 8 f
  if lengthAt len > lengthCap then none
  else if alloc = false then none
  else
    let (p, f) ← fread (lengthAt len) f
    some (wordAt hdr 0, p, f)

/-- The loop of `boot_state_load`: `ok`, `seen` and the machine -/
def loadLoop (alloc : Nat → Bool) : Nat → Nat → List Byte → Word → Machine e → Bool × Word × Machine e
  | 0, _, _, seen, m => (true, seen, m)
  | n + 1, i, f, seen, m =>
    match readRecord (alloc i) f with
    | none => (false, seen, m)
    | some (tag, p, rest) =>
      match applySection tag p m with
      | none => (false, seen, m)
      | some m' =>
        let seen := if tag.toNat < 32 then seen ||| (1#32 <<< tag.toNat) else seen
        loadLoop alloc n (i + 1) rest seen m'

def required : Word := Section.all.foldl (fun w t => w ||| (1#32 <<< t.tag.toNat)) 0#32

/-- `boot_state_load`; an absent file is `none`. -/
def bootStateLoad (alloc : Nat → Bool) (file : Option (List Byte)) (m : Machine e) : Bool × Machine e :=
  match file.bind (fread headerSize) with
  | none => (false, m)
  | some (h, f) =>
    if keyOk e h then
      let (ok, seen, m) := loadLoop alloc (sectionCount h) 0 f 0#32 m
      if ok = false ∨ seen &&& required ≠ required then (false, m) else (true, m)
    else (false, m)

/-! ## 3. What a file does, apart from the machine it is loaded into -/

abbrev Record := Section × List Byte

variable (e) in
/-- `apply_section` looks at the machine only to overwrite it. -/
def recordOf (tag : Word) (p : List Byte) : Option Record :=
  (Section.ofTag tag).bind fun t => (image e t p).map (t, ·)

def Machine.apply (m : Machine e) (r : Record) : Machine e := m.put r.1 r.2

theorem applySection_eq (tag : Word) (p : List Byte) (m : Machine e) :
    applySection tag p m = (recordOf e tag p).map m.apply := by
  unfold applySection recordOf
  cases Section.ofTag tag with
  | none => rfl
  | some t =>
    rw [bind_some, bind_some, Option.map_map]
    rfl

variable (e) in
/-- The sections the loop applies, and whether it reads all of them -/
def records (alloc : Nat → Bool) : Nat → Nat → List Byte → List Record × Bool
  | 0, _, _ => ([], true)
  | n + 1, i, f =>
    match readRecord (alloc i) f with
    | none => ([], false)
    | some (tag, p, rest) =>
      match recordOf e tag p with
      | none => ([], false)
      | some r => (r :: (records alloc n (i + 1) rest).1, (records alloc n (i + 1) rest).2)

/-- The bits of `seen` -/
def seenBits (seen : Word) (rs : List Record) : Word :=
  rs.foldl (fun w r => w ||| (1#32 <<< r.1.tag.toNat)) seen

theorem Section.tag_ofTag {w : Word} {t : Section} (h : ofTag w = some t) : t.tag = w := by
  simpa using List.find?_some h

theorem Section.tag_lt (t : Section) : t.tag.toNat < 32 := by
  cases t <;> decide

theorem recordOf_tag {tag : Word} {p : List Byte} {r : Record} (h : recordOf e tag p = some r) :
    r.1.tag = tag := by
  simp only [recordOf, bind_eq_some_iff, map_eq_some_iff] at h
  obtain ⟨t, ht, img, -, rfl⟩ := h
  exact Section.tag_ofTag ht

theorem loadLoop_eq (alloc : Nat → Bool) (n i : Nat) (f : List Byte) (seen : Word) (m : Machine e) :
    loadLoop alloc n i f seen m = ((records e alloc n i f).2, seenBits seen (records e alloc n i f).1,
      (records e alloc n i f).1.foldl Machine.apply m) := by
  induction n generalizing i f seen m with
  | zero => rfl
  | succ n ih =>
    rw [loadLoop, records]
    cases readRecord (alloc i) f with
    | none => rfl
    | some x =>
      obtain ⟨tag, p, rest⟩ := x
      dsimp only
      rw [applySection_eq]
      cases hr : recordOf e tag p with
      | none => rfl
      | some r =>
        have htag := recordOf_tag hr
        have hlt := r.1.tag_lt
        rw [htag] at hlt
        dsimp only [map_some]
        rw [ih, if_pos hlt, ← htag]
        rfl

variable (e) in
def applied (alloc : Nat → Bool) (file : Option (List Byte)) : List Record :=
  match file.bind (fread headerSize) with
  | none => []
  | some (h, f) => if keyOk e h then (records e alloc (sectionCount h) 0 f).1 else []

variable (e) in
/-- The file has the build's key, all its sections can be read and applied, and none is missing. -/
def accepted (alloc : Nat → Bool) (file : Option (List Byte)) : Bool :=
  match file.bind (fread headerSize) with
  | none => false
  | some (h, f) => keyOk e h && (records e alloc (sectionCount h) 0 f).2 &&
      decide (seenBits 0#32 (records e alloc (sectionCount h) 0 f).1 &&& required = required)

theorem bootStateLoad_eq (alloc : Nat → Bool) (file : Option (List Byte)) (m : Machine e) :
    bootStateLoad alloc file m =
      (accepted e alloc file, (applied e alloc file).foldl Machine.apply m) := by
  unfold bootStateLoad accepted applied
  cases file.bind (fread headerSize) with
  | none => rfl
  | some x =>
    obtain ⟨h, f⟩ := x
    dsimp only
    cases hk : keyOk e h with
    | false => simp
    | true =>
      simp only [if_true, loadLoop_eq, Bool.true_and]
      cases (records e alloc (sectionCount h) 0 f).2 with
      | false => simp
      | true => split_ifs with hseen <;> simp_all

/-! ## 4. What a failed load leaves -/

/-- The byte that the last of the sections writes there, if any does -/
def lastByte (rs : List Record) (t : Section) (i : Nat) : Option Byte :=
  (rs.filterMap fun r => if r.1 = t then r.2[i]? else none).getLast?

theorem apply_apply (m : Machine e) (r : Record) (t : Section) (i : Fin (e.state t)) :
    m.apply r t i = (if r.1 = t then r.2[i.val]? else none).getD (m t i) := by
  unfold Machine.apply Machine.put
  by_cases h : t = r.1
  · subst h
    rw [Function.update_self, if_pos rfl]
  · rw [Function.update_of_ne h, if_neg fun h' => h h'.symm]
    rfl

/-- Each byte is left by the last section that covers it. -/
theorem foldl_apply (rs : List Record) (m : Machine e) (t : Section) (i : Fin (e.state t)) :
    rs.foldl Machine.apply m t i = (lastByte rs t i).getD (m t i) := by
  induction rs generalizing m with
  | nil => rfl
  | cons r rs ih =>
    rw [List.foldl_cons, ih, apply_apply]
    unfold lastByte
    rw [List.filterMap_cons]
    cases hown : (if r.1 = t then r.2[i.val]? else none) with
    | none => rfl
    | some b =>
      rw [List.getLast?_cons]
      rfl

theorem getD_eq_iff {α : Type} {o : Option α} {a : α} : o.getD a = a ↔ ∀ b, o = some b → a = b := by
  cases o <;> simp [eq_comm]

def WritesBack (alloc : Nat → Bool) (file : Option (List Byte)) (m : Machine e) : Prop :=
  ∀ (t : Section) (i : Fin (e.state t)) (b : Byte), lastByte (applied e alloc file) t i = some b → m t i = b

/-- A load that fails leaves the machine as it was exactly when the sections it has applied by then,
each byte the last of them, are what the machine held. -/
theorem load_unchanged_iff (alloc : Nat → Bool) (file : Option (List Byte)) (m : Machine e) :
    ((bootStateLoad alloc file m).1 = false → (bootStateLoad alloc file m).2 = m) ↔
      accepted e alloc file = true ∨ WritesBack alloc file m := by
  have hsame : (applied e alloc file).foldl Machine.apply m = m ↔ WritesBack alloc file m := by
    simp [WritesBack, ← getD_eq_iff, ← foldl_apply, funext_iff]
  rw [bootStateLoad_eq, hsame]
  cases accepted e alloc file <;> simp

/-- A file with the right key that ends after its interrupt section: the load fails, and `i_stat` and
`i_mask` are those of the file. -/
theorem truncated_file_overwrites :
    let e : Build := ⟨0#32, 0#32, 0#32, 0#32, 0#32, 0, 0, 0, 0, 0, 0⟩
    let m : Machine e := fun _ _ => 0#8
    let header := [magic, version, 0#32, 0#32, 0#32, 0#32, 0#32, 14#32, 0#32]
    let irq := [Section.irq.tag, 0#32, 8#32, 0#32, 1#32, 1#32]
    let r := bootStateLoad (fun _ => true) (some ((header ++ irq).flatMap wordBytes)) m
    r.1 = false ∧ r.2 ≠ m := by
  intro e m header irq r
  refine ⟨by decide +kernel, fun hsame => ?_⟩
  have hbyte : r.2 .irq ⟨0, by decide⟩ = 1#8 := by decide +kernel
  rw [hsame] at hbyte
  exact absurd hbyte (by decide)

end PsxRecomp.BootState
