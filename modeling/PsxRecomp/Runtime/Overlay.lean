import PsxRecomp.Runtime.Ram

/-!
# `Runtime/Overlay.lean` — the overlay loader: candidates, validity, dispatch

`runtime/src/overlay_loader.c` keeps native versions of functions of code overlays: compiled ones from
DLLs or linked in statically, and shards that the JIT made in this session or an earlier one. Several
candidates may stand for one address. `dispatch_impl` picks the one whose code bytes are in RAM, and
`overlay_find_by_range` the one that contains a return address. Whether the bytes are there is hashed as
rarely as possible. `memory.c` counts the stores to each watched page (`overlay_page_gen`), and a
candidate keeps the sum over its pages from the time it was last judged (`val_gen`); while the sum is
the same, so is the verdict.

A native function that has been called is a state of this machine (`active`) and not a step of it: what
it stores and dispatches are steps of their own, in any order, until it returns. The same goes for the
two passes of `run_shadow_diff` (`Shadow`).
-/

set_option autoImplicit false

namespace PsxRecomp.Overlay

open Ram

/-! ## 1. The hash of code ranges -/

/-- An entry of the table of `crc32_init_table`. -/
def crcEntry (i : Word) : Word :=
  (List.range 8).foldl
    (fun c _ => if c &&& 1#32 = 1#32 then 0xEDB88320#32 ^^^ (c >>> 1) else c >>> 1) i

def crc32Update (crc : Word) (data : List Byte) : Word :=
  data.foldl
    (fun crc b => crcEntry ((crc ^^^ b.setWidth 32) &&& 0xFF#32) ^^^ (crc >>> 8)) crc

structure CodeRange where
  lo : Nat
  len : Nat
  inRam : lo + len ≤ ramSize

namespace CodeRange
variable (r : CodeRange)

def bytes (ram : Nat → Byte) : List Byte := (List.range r.len).map fun i => ram (r.lo + i)

/-- The pages from that of the first byte to that of the last one. -/
def pages : List Nat :=
  if r.len = 0 then []
  else List.range' (pageOf r.lo) (pageOf (r.lo + r.len - 1) + 1 - pageOf r.lo)

def Contains (phys : Nat) : Prop := r.lo ≤ phys ∧ phys < r.lo + r.len

instance (phys : Nat) : Decidable (r.Contains phys) := inferInstanceAs (Decidable (_ ∧ _))

end CodeRange

/-- `cand_crc` -/
def crcOf (ram : Nat → Byte) (ranges : List CodeRange) : Word :=
  ranges.foldl (fun crc r => crc32Update crc (r.bytes ram)) 0xFFFFFFFF#32 ^^^ 0xFFFFFFFF#32

/-! ## 2. Candidates -/

inductive EntryState
  | valid
  | invalid
  | blacklist
deriving DecidableEq

/-- `dll`: an index, or `-1` for a shard of the JIT. -/
inductive Origin
  | dll
  | shard
deriving DecidableEq

structure Candidate where
  addr : Nat
  ranges : List CodeRange
  crcCode : Word
  valGen : Word
  state : EntryState
  origin : Origin
  diffPasses : Nat := 0
  deviceTouch : Bool := false
  probe : Option Word := none

def Candidate.contains (c : Candidate) (phys : Nat) : Bool := c.ranges.any (·.Contains phys)

/-- RAM, `overlay_watch_bitmap` and `overlay_page_gen`. The counters do not wrap here; what is compared
of them is their sum modulo `2 ^ 32`, which is the same. -/
structure Pages where
  ram : Nat → Byte
  watched : Nat → Bool
  gen : Nat → Nat

namespace Pages
variable (m : Pages)

/-- The sum of the counters over the pages of some ranges. -/
def rawSum (ranges : List CodeRange) : Nat := ((ranges.flatMap CodeRange.pages).map m.gen).sum

/-- `cand_gensum` -/
def gensum (ranges : List CodeRange) : Word := BitVec.ofNat 32 (m.rawSum ranges)

/-- `overlay_watch_set_range`, for each of the ranges -/
def watch (ranges : List CodeRange) : Pages :=
  { m with watched := fun p => m.watched p || decide (p ∈ ranges.flatMap CodeRange.pages) }

def store (w : Width) (phys : Nat) (val : Word) : Pages :=
  { m with
    ram := Ram.write m.ram phys (w.bytes val)
    gen := if m.watched (pageOf phys) then Function.update m.gen (pageOf phys) (m.gen (pageOf phys) + 1)
      else m.gen }

/-- A bulk restore, then `overlay_watch_bump_all`. -/
def restore (ram : Nat → Byte) : Pages := { m with ram := ram, gen := fun p => m.gen p + 1 }

/-- `cand_match`: the verdict, and the candidate with its new `val_gen`. -/
def candMatch (c : Candidate) : Bool × Candidate :=
  let gen := m.gensum c.ranges
  if gen = c.valGen ∧ c.state ≠ .blacklist then (decide (c.state = .valid), c)
  else
    let c' := { c with valGen := gen }
    match c.probe with
    | some w =>
      if Words.leWord m.ram c.addr = w then (decide (crcOf m.ram c.ranges = c.crcCode), c')
      else (false, c')
    | none => (decide (crcOf m.ram c.ranges = c.crcCode), c')

/-- `cand_resident`: the verdict, recorded. -/
def candResident (c : Candidate) : Bool × Candidate :=
  let (matched, c') := m.candMatch c
  if matched then (true, { c' with state := .valid })
  else if c'.state = .valid then (false, { c' with state := .invalid })
  else (false, c')

end Pages

/-! ## 3. The loader -/

/-- A bucket of 256 bytes of RAM: the candidates with code in it, and the last one found there. -/
structure Bucket where
  v : List Nat := []
  hint : Option Nat := none

/-- The differential of a candidate while it goes on: RAM from before it, and once the interpreted pass
is over, RAM from after that. -/
structure Shadow where
  cand : Nat
  ram0 : Nat → Byte
  ramI : Option (Nat → Byte) := none

structure State where
  mem : Pages
  cands : List Candidate
  candCap : Nat
  buckets : Nat → Bucket
  /-- `s_active_stack`, the innermost call first -/
  active : List Nat
  shadow : Option Shadow

structure Switches where
  regionFloor : Nat
  cpsMode : Bool
  nativeExec : Bool
  diffMode : Bool
  sljitLive : Bool
  nativeBlock : List Nat

def diffBudget : Nat := 32

namespace State
variable (s : State)

def setCand (i : Nat) (c : Candidate) : State := { s with cands := s.cands.set i c }

/-- The chain of an entry address, the last registered candidate first. Address 0 marks a free slot of
the index. -/
def chain (phys : Nat) : List Nat :=
  if phys = 0 then []
  else ((List.range s.cands.length).filter fun i =>
    (s.cands[i]?).any fun c => c.addr = phys).reverse

/-- `bkt_add`, for the candidate registered next -/
def bktAdd (ranges : List CodeRange) (b : Nat) : Bucket :=
  let k := s.buckets b
  if ranges.any fun r => r.len ≠ 0 ∧ r.lo / 256 ≤ b ∧ b ≤ (r.lo + r.len - 1) / 256 then
    { k with v := k.v ++ [s.cands.length] }
  else k

/-- `cand_register`. The manifest may leave the hash out. -/
def candRegister (phys : Nat) (ranges : List CodeRange) (crc : Option Word) (probe : Option Word) :
    State :=
  if s.candCap ≤ s.cands.length then s
  else
    let mem := s.mem.watch ranges
    let live := crcOf mem.ram ranges
    let crcCode := crc.getD live
    let c : Candidate :=
      { addr := phys, ranges := ranges, crcCode := crcCode, valGen := mem.gensum ranges
        state := if live = crcCode then .valid else .invalid
        origin := .dll, probe := probe }
    -- a shard of the same variant is retired
    let retire (o : Candidate) : Candidate :=
      if phys ≠ 0 ∧ o.addr = phys ∧ o.origin = .shard ∧ o.state ≠ .blacklist ∧
        crcOf mem.ram o.ranges = o.crcCode then { o with state := .blacklist }
      else o
    { s with
      mem := mem
      cands := (if c.state = .valid then s.cands.map retire else s.cands) ++ [c]
      buckets := s.bktAdd ranges }

/-- `register_sljit_candidate`, with 0 for a shard made from the bytes in RAM. -/
def registerSljitCandidate (phys : Nat) (range : CodeRange) (crcOverride : Word) : State :=
  if s.candCap ≤ s.cands.length ∨ range.len = 0 then s
  else
    let mem := s.mem.watch [range]
    let c : Candidate :=
      { addr := phys, ranges := [range]
        crcCode := if crcOverride = 0#32 then crcOf mem.ram [range] else crcOverride
        valGen := mem.gensum [range], state := .valid, origin := .shard }
    { s with mem := mem, cands := s.cands ++ [c], buckets := s.bktAdd [range] }

/-- `overlay_loader_active_write_check` -/
def activeWriteCheck (phys size : Nat) : State :=
  { s with
    cands := s.cands.mapIdx fun i c =>
      if i ∈ s.active ∧ (c.ranges.any fun r => phys < r.lo + r.len ∧ r.lo < phys + size) then
        { c with state := .blacklist }
      else c }

/-- A store, with the check that a store to a watched page makes. -/
def store (w : Width) (phys : Nat) (val : Word) : State :=
  let s' := { s with mem := s.mem.store w phys val }
  if s.mem.watched (pageOf phys) then s'.activeWriteCheck phys w.size else s'

/-! ## 4. Dispatch -/

/-- A candidate of a bucket, if it is the resident one. -/
def tryResident (phys i : Nat) : State × Bool :=
  match s.cands[i]? with
  | none => (s, false)
  | some c =>
    if c.state = .blacklist ∨ c.contains phys = false then (s, false)
    else
      let (matched, c') := s.mem.candResident c
      (s.setCand i c', matched)

end State

def scanBucket (phys : Nat) : List Nat → State → State × Option Nat
  | [], s => (s, none)
  | i :: is, s =>
    match s.tryResident phys i with
    | (s', true) =>
      let b := phys / 256
      ({ s' with buckets := Function.update s'.buckets b { s'.buckets b with hint := some i } }, some i)
    | (s', false) => scanBucket phys is s'

def overlayFindByRange (phys : Nat) (s : State) : State × Option Nat :=
  if ramSize ≤ phys then (s, none)
  else
    let k := s.buckets (phys / 256)
    match k.hint with
    | none => scanBucket phys k.v s
    | some i =>
      match s.tryResident phys i with
      | (s', true) => (s', some i)
      | (s', false) => scanBucket phys k.v s'

/-- How a dispatch ends: the interpreter takes over, a native function is called, or a differential of
it starts. -/
inductive Outcome
  | interp
  | call (cand : Nat)
  | shadow (cand : Nat)

namespace Switches
variable (sw : Switches)

def mayRun (s : State) : Bool := sw.nativeExec && s.shadow.isNone

def wantDiff (c : Candidate) : Bool := sw.diffMode || (sw.sljitLive && c.origin == .shard)

/-- What is done with the matching candidate of a chain. -/
def outcome (s : State) (i : Nat) (c : Candidate) : Outcome :=
  if c.deviceTouch then .interp
  else if sw.wantDiff c && s.shadow.isNone && c.diffPasses < diffBudget then .shadow i
  else if !sw.mayRun s || sw.nativeBlock.contains c.addr then .interp
  else .call i

/-- The loop of `dispatch_impl` over a chain. -/
def tryChain : List Nat → State → State × Outcome
  | [], s => (s, .interp)
  | i :: is, s =>
    match s.cands[i]? with
    | none => tryChain is s
    | some c =>
      if c.state = .blacklist then tryChain is s
      else
        let (matched, c') := s.mem.candMatch c
        if matched then
          let c' := { c' with state := .valid }
          let s' := s.setCand i c'
          (s', sw.outcome s' i c')
        else tryChain is (s.setCand i { c' with state := .invalid })

/-- The re-entry at a return address inside a function. -/
def reenter (phys : Nat) (s : State) : State × Outcome :=
  match overlayFindByRange phys s with
  | (s', none) => (s', .interp)
  | (s', some i) =>
    match s'.cands[i]? with
    | none => (s', .interp)
    | some c =>
      let (matched, c') := s'.mem.candResident c
      let s'' := s'.setCand i c'
      if matched && !c'.deviceTouch && sw.mayRun s'' && !sw.nativeBlock.contains c'.addr &&
        !sw.nativeBlock.contains phys then (s'', .call i)
      else (s'', .interp)

def dispatchImpl (addr : Word) (s : State) : State × Outcome :=
  let phys := addr.toNat % 2 ^ 29
  if phys < sw.regionFloor then (s, .interp)
  else if s.chain phys = [] ∧ sw.cpsMode = true then sw.reenter phys s
  else sw.tryChain (s.chain phys) s

end Switches

/-! ## 5. Histories -/

inductive Op
  | candRegister (phys : Nat) (ranges : List CodeRange) (crc probe : Option Word)
  | registerSljit (phys : Nat) (range : CodeRange) (crcOverride : Word)
  | store (w : Width) (phys : Nat) (val : Word)
  | restore (ram : Nat → Byte)
  | dispatch (sw : Switches) (addr : Word)
  /-- the innermost native function returns -/
  | leave
  /-- the interpreted pass of a differential is over, and touched a device -/
  | shadowDevice
  /-- it is over, and touched none: the native pass begins -/
  | shadowNative
  /-- the native pass is over; `regsSame` is the verdict on the registers -/
  | shadowEnd (regsSame : Bool)

/-- The step, and the candidate whose `fn` it calls. -/
def step (op : Op) (s : State) : Option (State × Option Nat) :=
  match op with
  | .candRegister phys ranges crc probe => some (s.candRegister phys ranges crc probe, none)
  | .registerSljit phys range crcOverride => some (s.registerSljitCandidate phys range crcOverride, none)
  | .store w phys val => some (s.store w phys val, none)
  | .restore ram => some ({ s with mem := s.mem.restore ram }, none)
  | .dispatch sw addr =>
    match sw.dispatchImpl addr s with
    | (s', .interp) => some (s', none)
    | (s', .call i) => some ({ s' with active := if s'.active.length < 64 then i :: s'.active
        else s'.active }, some i)
    | (s', .shadow i) => some ({ s' with shadow := some { cand := i, ram0 := s'.mem.ram } }, none)
  | .leave => some ({ s with active := s.active.tail }, none)
  | .shadowDevice =>
    match s.shadow with
    | some ⟨i, _, none⟩ =>
      some ({ s with
        cands := s.cands.modify i fun c => { c with deviceTouch := true }
        shadow := none }, none)
    | _ => none
  | .shadowNative =>
    match s.shadow with
    | some ⟨i, ram0, none⟩ =>
      some ({ s with
        mem := { s.mem with ram := ram0 }
        shadow := some ⟨i, ram0, some s.mem.ram⟩ }, some i)
    | _ => none
  | .shadowEnd regsSame =>
    match s.shadow with
    | some ⟨i, _, some ramI⟩ =>
      let clean := regsSame && decide (∀ a < ramSize, s.mem.ram a = ramI a)
      some ({ s with
        mem := { s.mem with ram := ramI }
        cands := s.cands.modify i fun c =>
          { c with
            diffPasses :=
              if clean then if c.diffPasses < diffBudget then c.diffPasses + 1 else c.diffPasses
              else 0 }
        shadow := none }, none)
    | _ => none

end PsxRecomp.Overlay
