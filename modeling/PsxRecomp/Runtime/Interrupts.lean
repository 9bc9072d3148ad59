import PsxRecomp.Lib.Runs
import PsxRecomp.Machine.Cpu

/-!
# `Runtime/Interrupts.lean` — delivery of an interrupt and the ways out of its handler

`psx_check_interrupts` of `runtime/src/interrupts.c` calls the guest's exception handler as a host
function, from inside whatever it interrupts. The handler ends by an `RFE`, by `ReturnFromException`
(syscall 3), by a jump to the sentinel, or by returning; the first three are a `longjmp` to the `setjmp`
of the call, and so is `RestoreState`, which goes on with the handler elsewhere. A handler that enables
interrupts again is interrupted itself, once.

A call of `psx_check_interrupts` that has delivered is an `Activation`: its locals, and beside them what
the source does not keep (`History`), the values at its entry and what its handler has done. The guest
is arbitrary code between the calls of the runtime (`Op.guest`). `exception_jmpbuf` is the activation
whose `setjmp` filled it; a jump to one that has returned is undefined, and the run ends there.
-/

set_option autoImplicit false

namespace PsxRecomp.Interrupts

open List Option

/-! ## 1. The status register -/

/-- `COP0_SR` -/
def copSr : Reg := 12#5
/-- `COP0_CAUSE` -/
def copCause : Reg := 13#5
/-- `COP0_EPC` -/
def copEpc : Reg := 14#5

def iec (sr : Word) : Bool := sr.getLsbD 0
def im2 (sr : Word) : Bool := sr.getLsbD 10

def srPush (sr : Word) : Word := (sr &&& ~~~0x3F#32) ||| ((sr &&& 0x0F#32) <<< 2)

/-- The pop of the BIOS emitter, of `psx_syscall` and of the epilogue -/
def srPop (sr : Word) : Word := (sr &&& 0xFFFFFFC0#32) ||| ((sr >>> 2) &&& 0x0F#32)

/-- The pop of the game emitter, of the RAM interpreter and of `psx_syscall`'s fallback, which keeps bits
5 and 4 -/
def srPopKeep (sr : Word) : Word := (sr &&& 0xFFFFFFF0#32) ||| ((sr >>> 2) &&& 0x0F#32)

/-! ## 2. State -/

/-- `psx_exc_escape_reason_t` -/
inductive EscapeReason
  | none | rfeReturn | syscallReturn | legacySentinel
deriving DecidableEq, Repr

/-- The value `setjmp` returns with: `1` and `2` -/
inductive JumpCode
  | exit | redirect
deriving DecidableEq, Repr

/-- `PSX_EXC_SENTINEL_PC` -/
def sentinelPc : Word := 0x80000048#32

def sameGuestPc (a b : Word) : Bool := (a ^^^ b) &&& 0x1FFFFFFF#32 == 0#32

/-- `PSX_SAME_THREAD_RESTORE` -/
inductive RestoreMode
  | sentinelOnly | samePc | sameTcb
deriving DecidableEq, Repr

/-- What a caller of `psx_check_interrupts` is to find again -/
structure Entry where
  inException : Bool
  nestDepth : Nat
  ownerFiber : Option Nat
  dispatchDepth : Int
  gpr : Reg → Word
  hi : Word
  lo : Word

/-- The locals of `psx_check_interrupts` -/
structure Locals where
  prevInException : Bool
  preHandlerIstat : Word
  savedGpr : Reg → Word
  savedHi : Word
  savedLo : Word
  entryTcb : Word
  targetPc : Word
  prevOwnerFiber : Option Nat
  prevPending : Option JumpCode
  savedDispatchDepth : Int

/-- What has happened in an activation: the EPC it installed, the escape its handler chose, the EPC of the
last delivery inside its handler, and the values its handler has popped into `SR`. -/
structure History where
  entry : Entry
  epc : Word
  reason : EscapeReason
  nested : Option Word := .none
  pops : List Word := []

open History

structure Activation extends Locals, History where
  id : Nat

/-- The history of the innermost activation, whose handler is running, is brought up to date. -/
def noteTop (f : History → History) : List Activation → List Activation
  | [] => []
  | a :: fs => { a with toHistory := f a.toHistory } :: fs

def History.nest (epc : Word) (h : History) : History := { h with nested := some epc }
def History.pop (v : Word) (h : History) : History := { h with pops := v :: h.pops }
def History.escape (r : EscapeReason) (h : History) : History := { h with reason := r }

/-- An `RFE` is the escape, unless the delivery had no address to return to. -/
def History.markRfe (h : History) : History :=
  if h.reason = .legacySentinel then h else h.escape .rfeReturn

/-- The globals; `frames` are the activations on the host's stack, the innermost first. `epiloguePops`
counts, and the source does not have it. -/
structure Host (M : Type) where
  cpu : Cpu M
  inException : Bool
  nestDepth : Nat
  rfePending : Bool
  reason : EscapeReason
  realEpc : Word
  jmpbuf : Option Nat
  ownerFiber : Option Nat
  pending : Option JumpCode
  dispatchDepth : Int
  fiber : Nat
  istat : Word
  imask : Word
  now : BitVec 64
  cooldownUntil : BitVec 64
  dirtySafeResumePc : Word
  compiledResumePc : Word
  frames : List Activation
  nextId : Nat
  epiloguePops : Nat

/-- The memory, the mode of the restore, and what `psx_change_thread_fiber` does to the registers when
the fiber that owns the exception is switched back to. -/
structure Env (M : Type) where
  rt : Runtime M
  mode : RestoreMode
  resumeOwner : Cpu M → Cpu M

section
variable {M : Type} (E : Env M)

def Env.peek (m : M) (a : Word) : Word := (E.rt.readWord a m).1

/-- The running thread: `PCB[0]` -/
def Env.currentTcb (m : M) : Word :=
  let pcb := E.peek m 0x108#32
  if pcb ≠ 0#32 then E.peek m (pcb &&& 0x1FFFFFFF#32) else 0#32

namespace Host
variable (s : Host M)

def sr : Word := s.cpu.cop0 copSr

/-! ## 3. Delivery -/

def nestBlocked : Bool :=
  s.inException && (decide (2 ≤ s.nestDepth) || s.rfePending || decide (s.reason ≠ .none) || !iec s.sr)

def realPc : Word :=
  if s.dirtySafeResumePc ≠ 0#32 then s.dirtySafeResumePc else s.compiledResumePc

def Resumable : Prop :=
  s.realPc ≠ 0#32 ∧ s.realPc &&& 3#32 = 0#32 ∧ s.realPc &&& 0x1FFFFFFF#32 < 0x00200000#32

instance : Decidable s.Resumable := inferInstanceAs (Decidable (_ ∧ _ ∧ _))

def newEpc : Word := if s.Resumable then s.realPc else sentinelPc

def newReason : EscapeReason := if s.Resumable then .none else .legacySentinel

/-- The registers and the memory as the handler finds them -/
def enterCpu : Cpu M :=
  let cause := (s.cpu.cop0 copCause &&& ~~~0x7C#32) ||| 0x400#32
  let c := ((s.cpu.setCop0 copCause cause).setCop0 copSr (srPush s.sr)).setCop0 copEpc s.newEpc
  if s.Resumable then c else { c with mem := E.rt.writeWord sentinelPc 0#32 c.mem }

/-- The vector, `BEV` permitting through the jump that is installed there -/
def targetPc (m : M) : Word :=
  if s.sr.getLsbD 22 then 0xBFC00180#32
  else
    ((E.peek m 0x80000080#32 &&& 0xFFFF#32) <<< 16) +
      ((E.peek m 0x80000084#32).setWidth 16).signExtend 32

def entry : Entry where
  inException := s.inException
  nestDepth := s.nestDepth
  ownerFiber := s.ownerFiber
  dispatchDepth := s.dispatchDepth
  gpr := s.cpu.gpr
  hi := s.cpu.hi
  lo := s.cpu.lo

def activation : Activation where
  prevInException := s.inException
  preHandlerIstat := s.istat
  savedGpr := s.cpu.gpr
  savedHi := s.cpu.hi
  savedLo := s.cpu.lo
  entryTcb := E.currentTcb (s.enterCpu E).mem
  targetPc := s.targetPc E (s.enterCpu E).mem
  prevOwnerFiber := s.ownerFiber
  prevPending := s.pending
  savedDispatchDepth := s.dispatchDepth
  entry := s.entry
  epc := s.newEpc
  reason := s.newReason
  id := s.nextId

def deliver : Host M :=
  { s with
    cpu := s.enterCpu E
    inException := true
    nestDepth := s.nestDepth + 1
    rfePending := false
    reason := s.newReason
    realEpc := s.newEpc
    jmpbuf := some s.nextId
    ownerFiber := some s.fiber
    pending := none
    dispatchDepth := 0
    frames := s.activation E :: noteTop (History.nest s.newEpc) s.frames
    nextId := s.nextId + 1 }

/-- `psx_check_interrupts` up to the call of the handler -/
def psxCheckInterrupts : Host M :=
  if s.istat &&& s.imask = 0#32 ∨ s.nestBlocked = true then s
  else if s.cooldownUntil ≠ 0 ∧ s.now < s.cooldownUntil then s
  else if iec s.sr = true ∧ im2 s.sr = true then { s with cooldownUntil := 0 }.deliver E
  else { s with cooldownUntil := 0 }

/-! ## 4. The epilogue and the jumps to it -/

/-- `do_restore`, from the EPC and the escape reason that are taken for the activation's -/
def doRestore (epc : Word) (reason : EscapeReason) (a : Locals) : Bool :=
  let samePc := decide (reason ≠ .legacySentinel) && decide (epc ≠ 0#32) && sameGuestPc s.cpu.pc epc
  decide (reason = .legacySentinel) ||
    match E.mode with
    | .sentinelOnly => false
    | .samePc => samePc
    | .sameTcb => samePc && decide (a.entryTcb ≠ 0#32 ∧ a.entryTcb = E.currentTcb s.cpu.mem)

def cooldownAfter (a : Locals) : BitVec 64 :=
  if s.istat &&& s.imask ≠ 0#32 ∧ s.istat = a.preHandlerIstat then s.now + 8192
  else
    let claimed := a.preHandlerIstat &&& ~~~s.istat
    if (claimed ||| (s.istat &&& s.imask)).getLsbD 7 then 0 else s.now + 128

def exitCpu (a : Locals) : Cpu M :=
  let c := if s.doRestore E s.realEpc s.reason a
    then { s.cpu with gpr := a.savedGpr, hi := a.savedHi, lo := a.savedLo } else s.cpu
  if iec s.sr then c else c.setCop0 copSr (srPop s.sr)

/-- From the end of the loop around `setjmp` to the return -/
def epilogue (a : Activation) (fs : List Activation) : Host M :=
  { s with
    cpu := s.exitCpu E a.toLocals
    inException := a.prevInException
    nestDepth := s.nestDepth - 1
    rfePending := false
    reason := .none
    ownerFiber := a.prevOwnerFiber
    pending := a.prevPending
    dispatchDepth := a.savedDispatchDepth
    cooldownUntil := s.cooldownAfter a.toLocals
    frames := fs
    epiloguePops := if iec s.sr then s.epiloguePops else s.epiloguePops + 1 }

/-- `longjmp(exception_jmpbuf, code)`: the calls above the target are cut off. There may be no target:
the activation has returned. -/
def longjmp (code : JumpCode) : Option (Host M) :=
  match s.jmpbuf with
  | none => none
  | some id =>
    match s.frames.dropWhile fun a => a.id ≠ id with
    | [] => none
    | a :: fs =>
      match code with
      | .exit => some ({ s with dispatchDepth := 0 }.epilogue E a fs)
      | .redirect =>
        -- `setjmp` is called once more and fills the buffer with the same activation
        some { s with dispatchDepth := 0, frames := { a with targetPc := s.cpu.pc } :: fs }

/-- `deferred_exception_longjmp`, with the owner's side of it in `psx_change_thread_fiber` -/
def deferredLongjmp (code : JumpCode) : Option (Host M) :=
  match s.ownerFiber with
  | none => s.longjmp E code
  | some f =>
    if f = s.fiber then s.longjmp E code
    else { s with fiber := f, pending := none, cpu := E.resumeOwner s.cpu }.longjmp E code

def handlerReturn : Option (Host M) :=
  match s.frames with
  | [] => some s
  | a :: fs => some (s.epilogue E a fs)

/-! ## 5. What a handler calls -/

def psxRfeMarkEscape : Host M :=
  let t := { s with frames := noteTop History.markRfe s.frames }
  if s.inException = true ∧ s.reason ≠ .legacySentinel then
    { t with rfePending := true, reason := .rfeReturn }
  else t

def psxRfeEscapeCheck : Option (Host M) :=
  if s.rfePending = true ∧ s.inException = true ∧ s.ownerFiber = some s.fiber then
    { s with rfePending := false }.longjmp E .exit
  else some s

/-- `save_area`, or zero -/
def saveArea : Word :=
  let pcb := E.peek s.cpu.mem 0x108#32
  if pcb ≠ 0#32 then E.peek s.cpu.mem pcb else 0#32

/-- The registers of the thread whose area it is, with its status popped -/
def tcbCpu (area : Word) : Cpu M :=
  let save := area + 8#32
  { s.cpu with
    gpr := fun i => if i = 0#5 then s.cpu.gpr 0#5 else E.peek s.cpu.mem (save + i.setWidth 32 * 4#32)
    hi := E.peek s.cpu.mem (save + 132#32)
    lo := E.peek s.cpu.mem (save + 136#32)
    pc := E.peek s.cpu.mem (save + 128#32)
    cop0 := Function.update s.cpu.cop0 copSr (srPop (E.peek s.cpu.mem (save + 140#32))) }

/-- The pop of a handler: registers that hold the popped status, and the note of it -/
def popped (c : Cpu M) : Host M :=
  { s with cpu := c, frames := noteTop (History.pop (c.cop0 copSr)) s.frames }

/-- `psx_syscall`, `case 3`, where no thread is switched -/
def psxReturnFromException : Option (Host M) :=
  if s.saveArea E = 0#32 then
    some (s.popped { s.cpu.setCop0 copSr (srPopKeep s.sr) with pc := s.cpu.cop0 copEpc })
  else
    let t := s.popped (s.tcbCpu E (s.saveArea E))
    if t.inException = true then
      { t with
        reason := .syscallReturn
        rfePending := false
        frames := noteTop (History.escape .syscallReturn) t.frames }.deferredLongjmp E .exit
    else some t

/-- A dispatch to the sentinel, by `psx_unknown_dispatch` or `dirty_ram_dispatch` -/
def dispatchSentinel : Option (Host M) :=
  if s.inException = true then
    { s with cpu := { s.cpu with pc := 0#32 } }.deferredLongjmp E .exit
  else some s

def psxRestoreStateEscape : Option (Host M) :=
  if s.inException = true then s.deferredLongjmp E .redirect else some s

end Host

/-- The places that translate `RFE` -/
inductive RfeSite
  | biosCode | gameCode | ramInterp | interp
deriving DecidableEq, Repr

def RfeSite.pop : RfeSite → Word → Word
  | .biosCode | .interp => srPop
  | .gameCode | .ramInterp => srPopKeep

/-- Generated code arms the escape, the interpreters do not. -/
def RfeSite.marks : RfeSite → Bool
  | .biosCode | .gameCode => true
  | .ramInterp | .interp => false

def Host.rfe (site : RfeSite) (s : Host M) : Host M :=
  let t := s.popped (s.cpu.setCop0 copSr (site.pop s.sr))
  if site.marks then t.psxRfeMarkEscape else t

structure Guest (M : Type) where
  cpu : Cpu M
  dispatchDepth : Int
  istat : Word
  imask : Word
  now : BitVec 64
  dirtySafeResumePc : Word
  compiledResumePc : Word

def Host.guest (g : Guest M) (s : Host M) : Host M :=
  { s with
    cpu := g.cpu
    dispatchDepth := g.dispatchDepth
    istat := g.istat
    imask := g.imask
    now := g.now
    dirtySafeResumePc := g.dirtySafeResumePc
    compiledResumePc := g.compiledResumePc }

inductive Exit
  | rfeCheck | returnFromException | sentinel | restoreState | plainReturn
deriving DecidableEq, Repr

inductive Op (M : Type)
  | guest (g : Guest M)
  | check
  | rfe (site : RfeSite)
  | exit (e : Exit)
  | switchFiber (f : Nat)

def Exit.exec (s : Host M) : Exit → Option (Host M)
  | .rfeCheck => s.psxRfeEscapeCheck E
  | .returnFromException => s.psxReturnFromException E
  | .sentinel => s.dispatchSentinel E
  | .restoreState => s.psxRestoreStateEscape E
  | .plainReturn => s.handlerReturn E

/-- One operation; none if the host is lost in a jump. A thread is switched outside of handlers only. -/
def step : Op M → Host M → Option (Host M)
  | .guest g, s => some (s.guest g)
  | .check, s => some (s.psxCheckInterrupts E)
  | .rfe site, s => some (s.rfe site)
  | .exit e, s => e.exec E s
  | .switchFiber f, s => some (if s.inException then s else { s with fiber := f })

/-- `interrupts_init` -/
def Boot (s : Host M) : Prop := s.frames = [] ∧ s.inException = false ∧ s.nestDepth = 0

/-! ## 6. What holds between the operations -/

/-- The locals are the values at the entry, and the activation was made with `depth` others around it. -/
structure Activation.Entered (a : Activation) (depth : Nat) : Prop where
  inException : a.prevInException = a.entry.inException
  ownerFiber : a.prevOwnerFiber = a.entry.ownerFiber
  dispatchDepth : a.savedDispatchDepth = a.entry.dispatchDepth
  regs : a.savedGpr = a.entry.gpr ∧ a.savedHi = a.entry.hi ∧ a.savedLo = a.entry.lo
  flag : a.entry.inException = decide (0 < depth)
  depth : a.entry.nestDepth = depth

/-- The globals as the handler of `a` has them: they are its own until something is delivered inside it,
and then the jump buffer and the EPC are those of an activation that has returned. -/
structure Top (s : Host M) (a : Activation) : Prop where
  owner : s.ownerFiber = some s.fiber
  reason : s.reason = a.reason
  epc : s.realEpc = a.nested.getD a.epc
  fresh : a.id < s.nextId
  own : a.nested = none → s.jmpbuf = some a.id
  dead : a.nested ≠ none → ∃ i, s.jmpbuf = some i ∧ a.id < i

inductive Stacked (s : Host M) : List Activation → Prop
  | empty : s.inException = false → s.nestDepth = 0 → Stacked s []
  | one {a : Activation} : s.inException = true → s.nestDepth = 1 → Top s a → a.Entered 0 →
      Stacked s [a]
  | two {a b : Activation} : s.inException = true → s.nestDepth = 2 → Top s a → a.nested = none →
      a.Entered 1 → a.entry.ownerFiber = some s.fiber →
      b.Entered 0 → b.nested = some a.epc → b.reason = .none → b.id < a.id → Stacked s [a, b]

/-- A note that leaves alone what the globals are compared with -/
structure History.Keeps (f : History → History) : Prop where
  entry : ∀ h, (f h).entry = h.entry
  epc : ∀ h, (f h).epc = h.epc
  nested : ∀ h, (f h).nested = h.nested

section
variable {s t : Host M} {fs : List Activation} {a : Activation}

theorem noteTop_id (fs : List Activation) : noteTop id fs = fs := by
  cases fs <;> rfl

theorem History.keeps_markRfe : History.Keeps History.markRfe := by
  constructor <;> intro h <;> unfold History.markRfe <;> split_ifs <;> rfl

/-- The globals that say which activation is which are the same. -/
structure SameFrame (s t : Host M) : Prop where
  inException : t.inException = s.inException
  nestDepth : t.nestDepth = s.nestDepth
  ownerFiber : t.ownerFiber = s.ownerFiber
  fiber : t.fiber = s.fiber
  realEpc : t.realEpc = s.realEpc
  jmpbuf : t.jmpbuf = s.jmpbuf
  nextId : t.nextId = s.nextId

variable {f : History → History}

theorem Activation.Entered.note (hf : History.Keeps f) {depth : Nat}
    (h : a.Entered depth) : { a with toHistory := f a.toHistory : Activation }.Entered depth := by
  have he := hf.entry a.toHistory
  constructor <;> simp only [he]
  exacts [h.inException, h.ownerFiber, h.dispatchDepth, h.regs, h.flag, h.depth]

theorem Top.note (hf : History.Keeps f) (hs : SameFrame s t)
    (hr : s.reason = a.reason → t.reason = (f a.toHistory).reason) (h : Top s a) :
    Top t { a with toHistory := f a.toHistory } := by
  have hn : (f a.toHistory).nested = a.nested := hf.nested _
  have he : (f a.toHistory).epc = a.epc := hf.epc _
  refine ⟨?_, hr h.reason, ?_, ?_, ?_, ?_⟩ <;>
    simp [hs.ownerFiber, hs.fiber, hs.realEpc, hs.nextId, hs.jmpbuf, hn, he]
  exacts [h.owner, h.epc, h.fresh, h.own, h.dead]

theorem Stacked.note (h : Stacked s fs) (hf : History.Keeps f) (hs : SameFrame s t)
    (hr : ∀ a : Activation, s.reason = a.reason → t.reason = (f a.toHistory).reason) :
    Stacked t (noteTop f fs) := by
  cases h with
  | empty hin hd => exact .empty (hs.inException.trans hin) (hs.nestDepth.trans hd)
  | one hin hd ht he =>
    exact .one (hs.inException.trans hin) (hs.nestDepth.trans hd) (ht.note hf hs (hr _)) (he.note hf)
  | @two a b hin hd ht hn he ho hb hbn hbr hid =>
    refine .two (hs.inException.trans hin) (hs.nestDepth.trans hd) (ht.note hf hs (hr _))
      ((hf.nested _).trans hn) (he.note hf) ?_ hb ?_ hbr hid
    · rw [hs.fiber, ← ho]
      exact congrArg Entry.ownerFiber (hf.entry _)
    · rw [hbn]
      exact congrArg some (hf.epc _).symm

theorem Stacked.epilogue (h : Stacked s (a :: fs)) : Stacked (s.epilogue E a fs) fs := by
  cases h with
  | one hin hd ht he =>
    refine .empty ?_ ?_
    · exact he.inException.trans he.flag
    · change s.nestDepth - 1 = 0
      omega
  | two hin hd ht hn he ho hb hbn hbr hid =>
    refine .one (he.inException.trans he.flag) ?_ ⟨?_, hbr.symm, ?_, ?_, ?_, ?_⟩ hb
    · change s.nestDepth - 1 = 1
      omega
    · exact he.ownerFiber.trans ho
    · change s.realEpc = _
      rw [ht.epc, hn, hbn]
      rfl
    · exact hid.trans ht.fresh
    · intro hnone
      rw [hbn] at hnone
      cases hnone
    · exact fun _ => ⟨_, ht.own hn, hid⟩

theorem Stacked.deliver (h : Stacked s s.frames) (hgate : s.nestBlocked = false) :
    Stacked (s.deliver E) (s.deliver E).frames := by
  generalize hfs : s.frames = fs at h
  have hframes : (s.deliver E).frames = s.activation E :: noteTop (nest s.newEpc) fs := by
    rw [← hfs]
    rfl
  have htop : Top (s.deliver E) (s.activation E) :=
    ⟨rfl, rfl, rfl, Nat.lt_succ_self _, fun _ => rfl, fun hne => absurd rfl hne⟩
  have hentered (depth : Nat) (hflag : s.inException = decide (0 < depth))
      (hdepth : s.nestDepth = depth) : (s.activation E).Entered depth :=
    ⟨rfl, rfl, rfl, ⟨rfl, rfl, rfl⟩, hflag, hdepth⟩
  rw [hframes]
  cases h with
  | empty hin hd => exact .one rfl (congrArg (· + 1) hd) htop (hentered 0 hin hd)
  | one hin hd ht he =>
    have hnone : s.reason = .none := by
      simp only [Host.nestBlocked, hin, Bool.true_and, Bool.or_eq_false_iff] at hgate
      simpa using hgate.1.2
    refine .two rfl (congrArg (· + 1) hd) htop rfl (hentered 1 hin hd) ht.owner ?_ rfl
      (ht.reason.symm.trans hnone) ht.fresh
    exact ⟨he.inException, he.ownerFiber, he.dispatchDepth, he.regs, he.flag, he.depth⟩
  | two hin hd =>
    -- a third level is gated by the depth
    simp [Host.nestBlocked, hin, hd] at hgate

theorem Stacked.same (h : Stacked s fs) (hs : SameFrame s t) (hr : t.reason = s.reason) :
    Stacked t fs := by
  have hn := h.note (f := id) ⟨fun _ => rfl, fun _ => rfl, fun _ => rfl⟩ hs fun _ ha => hr.trans ha
  rwa [noteTop_id] at hn

theorem Stacked.check (h : Stacked s s.frames) :
    Stacked (s.psxCheckInterrupts E) (s.psxCheckInterrupts E).frames := by
  unfold Host.psxCheckInterrupts
  have hcool : Stacked { s with cooldownUntil := 0 } s.frames :=
    h.same ⟨rfl, rfl, rfl, rfl, rfl, rfl, rfl⟩ rfl
  split_ifs with hgate hwait hsr
  · exact h
  · exact h
  · refine Stacked.deliver E hcool ?_
    have hfree : s.nestBlocked ≠ true := fun hb => hgate (.inr hb)
    exact Bool.eq_false_of_not_eq_true hfree
  · exact hcool

/-! ### Jumps -/

theorem Stacked.top (h : Stacked s (a :: fs)) : s.inException = true ∧ Top s a := by
  cases h with
  | one hin _ ht | two hin _ ht => exact ⟨hin, ht⟩

theorem Stacked.longjmp_own (h : Stacked s (a :: fs)) (hf : s.frames = a :: fs)
    (hn : a.nested = none) :
    s.longjmp E .exit = some ({ s with dispatchDepth := 0 }.epilogue E a fs) ∧
      s.longjmp E .redirect =
        some { s with dispatchDepth := 0, frames := { a with targetPc := s.cpu.pc } :: fs } := by
  have hjump := h.top.2.own hn
  have hdrop : s.frames.dropWhile (fun b => b.id ≠ a.id) = a :: fs := by
    rw [hf, dropWhile_cons_of_neg (by simp)]
  constructor <;> simp only [Host.longjmp, hjump, hdrop]

theorem Stacked.longjmp_dead (h : Stacked s (a :: fs)) (hf : s.frames = a :: fs)
    (hn : a.nested ≠ none) (code : JumpCode) : s.longjmp E code = none := by
  cases h with
  | one _ _ ht =>
    obtain ⟨i, hjump, hlt⟩ := ht.dead hn
    have hdrop : s.frames.dropWhile (fun b => b.id ≠ i) = [] := by
      rw [hf, dropWhile_cons_of_pos (by simpa using hlt.ne)]
      rfl
    simp only [Host.longjmp, hjump, hdrop]
  | two _ _ _ hnone => exact absurd hnone hn

theorem Stacked.outside (h : Stacked s fs) (hout : ¬ s.inException = true) :
    fs = [] ∧ s.inException = false ∧ s.nestDepth = 0 := by
  cases h with
  | empty hin hd => exact ⟨rfl, hin, hd⟩
  | one hin | two hin => exact absurd hin hout

theorem Stacked.frames_ne (h : Stacked s fs) (hin : s.inException = true) : fs ≠ [] := by
  rintro rfl
  cases h with
  | empty hout => simp [hout] at hin

theorem Stacked.owner (h : Stacked s fs) (hin : s.inException = true) :
    s.ownerFiber = some s.fiber := by
  cases fs with
  | nil => exact absurd rfl (h.frames_ne hin)
  | cons a fs => exact h.top.2.owner

theorem Stacked.deferredLongjmp (h : Stacked s fs) (hin : s.inException = true) (code : JumpCode) :
    s.deferredLongjmp E code = s.longjmp E code := by
  rw [Host.deferredLongjmp, h.owner hin]
  exact if_pos rfl

end

/-! ## 7. Exits -/

/-- The exit is taken: a handler is running, and what the exit depends on is there. -/
def Exit.Taken (s : Host M) : Exit → Prop
  | .rfeCheck => s.rfePending = true ∧ s.inException = true ∧ s.ownerFiber = some s.fiber
  | .returnFromException => s.inException = true ∧ s.saveArea E ≠ 0#32
  | .sentinel | .restoreState => s.inException = true
  | .plainReturn => s.frames ≠ []

def Exit.prepare (s : Host M) : Exit → Host M
  | .rfeCheck => { s with rfePending := false }
  | .returnFromException =>
    let t := s.popped (s.tcbCpu E (s.saveArea E))
    { t with
      reason := .syscallReturn
      rfePending := false
      frames := noteTop (History.escape .syscallReturn) t.frames }
  | .sentinel => { s with cpu := { s.cpu with pc := 0#32 } }
  | .restoreState | .plainReturn => s

def Exit.code : Exit → Option JumpCode
  | .rfeCheck | .returnFromException | .sentinel => some .exit
  | .restoreState => some .redirect
  | .plainReturn => none

section
variable {s : Host M} {e : Exit}

theorem Stacked.popped (h : Stacked s s.frames) (c : Cpu M) :
    Stacked (s.popped c) (s.popped c).frames :=
  h.note ⟨fun _ => rfl, fun _ => rfl, fun _ => rfl⟩ ⟨rfl, rfl, rfl, rfl, rfl, rfl, rfl⟩ fun _ ha => ha

theorem Stacked.prepare (h : Stacked s s.frames) (e : Exit) :
    Stacked (e.prepare E s) (e.prepare E s).frames := by
  cases e with
  | rfeCheck | sentinel => exact h.same ⟨rfl, rfl, rfl, rfl, rfl, rfl, rfl⟩ rfl
  | restoreState | plainReturn => exact h
  | returnFromException =>
    exact (h.popped _).note ⟨fun _ => rfl, fun _ => rfl, fun _ => rfl⟩
      ⟨rfl, rfl, rfl, rfl, rfl, rfl, rfl⟩ fun _ _ => rfl

theorem Exit.exec_taken (h : Stacked s s.frames) (ht : e.Taken E s) :
    e.exec E s = match e.code with
      | some c => (e.prepare E s).longjmp E c
      | none => (e.prepare E s).handlerReturn E := by
  have hp := h.prepare E e
  cases e with
  | rfeCheck => exact if_pos ht
  | sentinel | restoreState =>
    have hin : s.inException = true := ht
    exact (if_pos hin).trans (hp.deferredLongjmp E hin _)
  | plainReturn => rfl
  | returnFromException =>
    obtain ⟨hin, harea⟩ := ht
    have hin' : (s.popped (s.tcbCpu E (s.saveArea E))).inException = true := hin
    simp only [Exit.exec, Host.psxReturnFromException, if_neg harea, hin', if_true]
    exact hp.deferredLongjmp E hin .exit

theorem Exit.exec_not_taken (h : Stacked s s.frames) (hn : ¬ e.Taken E s) :
    ∃ t, e.exec E s = some t ∧ Stacked t t.frames := by
  cases e with
  | rfeCheck | sentinel | restoreState => exact ⟨s, if_neg hn, h⟩
  | plainReturn =>
    have hempty : s.frames = [] := not_not.mp hn
    exact ⟨s, by simp only [Exit.exec, Host.handlerReturn, hempty], h⟩
  | returnFromException =>
    by_cases harea : s.saveArea E = 0#32
    · exact ⟨_, if_pos harea, h.popped _⟩
    · have hout : (s.popped (s.tcbCpu E (s.saveArea E))).inException ≠ true := fun hin => hn ⟨hin, harea⟩
      exact ⟨_, (if_neg harea).trans (if_neg hout), h.popped _⟩

variable {fs : List Activation}

theorem Stacked.depth (h : Stacked s fs) (d : Int) :
    Stacked { s with dispatchDepth := d } fs :=
  h.same ⟨rfl, rfl, rfl, rfl, rfl, rfl, rfl⟩ rfl

theorem Stacked.retarget {a : Activation} (h : Stacked s (a :: fs)) (pc : Word) :
    Stacked s ({ a with targetPc := pc } :: fs) := by
  cases h with
  | one hin hd ht he =>
    exact .one hin hd ⟨ht.owner, ht.reason, ht.epc, ht.fresh, ht.own, ht.dead⟩
      ⟨he.inException, he.ownerFiber, he.dispatchDepth, he.regs, he.flag, he.depth⟩
  | two hin hd ht hn he ho hb hbn hbr hid =>
    exact .two hin hd ⟨ht.owner, ht.reason, ht.epc, ht.fresh, ht.own, ht.dead⟩ hn
      ⟨he.inException, he.ownerFiber, he.dispatchDepth, he.regs, he.flag, he.depth⟩ ho hb hbn hbr hid

theorem Exit.Taken.frames_ne (ht : e.Taken E s) (h : Stacked s s.frames) :
    ∃ a fs, (e.prepare E s).frames = a :: fs := by
  have hs : s.frames ≠ [] := by
    cases e with
    | rfeCheck => exact h.frames_ne ht.2.1
    | returnFromException => exact h.frames_ne ht.1
    | sentinel | restoreState => exact h.frames_ne ht
    | plainReturn => exact ht
  refine exists_cons_of_ne_nil ?_
  cases e with
  | returnFromException =>
    obtain ⟨a, fs, hfs⟩ := exists_cons_of_ne_nil hs
    simp [Exit.prepare, Host.popped, hfs, noteTop]
  | _ => exact hs

theorem Exit.exec_cases (h : Stacked s s.frames) (ht : e.Taken E s) {a : Activation}
    (hf : (e.prepare E s).frames = a :: fs) :
    e ≠ .plainReturn ∧ a.nested ≠ none ∧ e.exec E s = none ∨
      e = .restoreState ∧ e.exec E s =
        some { e.prepare E s with
          dispatchDepth := 0, frames := { a with targetPc := (e.prepare E s).cpu.pc } :: fs } ∨
      e ≠ .restoreState ∧
        ∃ d, e.exec E s = some ({ e.prepare E s with dispatchDepth := d }.epilogue E a fs) := by
  have hp := h.prepare E e
  rw [hf] at hp
  have hexec := Exit.exec_taken E h ht
  by_cases hplain : e = .plainReturn
  · subst hplain
    refine .inr (.inr ⟨nofun, s.dispatchDepth, hexec.trans ?_⟩)
    simp only [Exit.code, Host.handlerReturn, hf]
    rfl
  by_cases hn : a.nested = none
  · obtain ⟨hexit, hredirect⟩ := hp.longjmp_own E hf hn
    cases e with
    | plainReturn => exact absurd rfl hplain
    | restoreState => exact .inr (.inl ⟨rfl, hexec.trans hredirect⟩)
    | _ => exact .inr (.inr ⟨nofun, 0, hexec.trans hexit⟩)
  · have hdead := hp.longjmp_dead E hf hn
    cases e with
    | plainReturn => exact absurd rfl hplain
    | _ => exact .inl ⟨hplain, hn, hexec.trans (hdead _)⟩

theorem Exit.exec_stacked (h : Stacked s s.frames) {t : Host M} (he : e.exec E s = some t) :
    Stacked t t.frames := by
  by_cases ht : e.Taken E s
  · obtain ⟨a, fs, hf⟩ := Exit.Taken.frames_ne E ht h
    have hp := h.prepare E e
    rw [hf] at hp
    rcases Exit.exec_cases E h ht hf with ⟨-, -, heq⟩ | ⟨-, heq⟩ | ⟨-, d, heq⟩
    · rw [heq] at he
      cases he
    · obtain rfl := some.inj (heq.symm.trans he)
      exact (hp.retarget _).same ⟨rfl, rfl, rfl, rfl, rfl, rfl, rfl⟩ rfl
    · obtain rfl := some.inj (heq.symm.trans he)
      exact (hp.depth d).epilogue E
  · obtain ⟨u, hu, hs⟩ := Exit.exec_not_taken E h ht
    obtain rfl := some.inj (hu.symm.trans he)
    exact hs

theorem Stacked.markEscape (h : Stacked s s.frames) :
    Stacked s.psxRfeMarkEscape s.psxRfeMarkEscape.frames := by
  unfold Host.psxRfeMarkEscape
  split
  case isTrue hc =>
    refine h.note keeps_markRfe ⟨rfl, rfl, rfl, rfl, rfl, rfl, rfl⟩ fun a ha => ?_
    have hreal : a.toHistory.reason ≠ .legacySentinel := fun hl => hc.2 (ha.trans hl)
    simp only [markRfe, if_neg hreal]
    rfl
  case isFalse hc =>
    by_cases hin : s.inException = true
    · refine h.note keeps_markRfe ⟨rfl, rfl, rfl, rfl, rfl, rfl, rfl⟩ fun a ha => ?_
      have hlegacy : s.reason = .legacySentinel := by
        by_contra hne
        exact hc ⟨hin, hne⟩
      have hl : a.toHistory.reason = .legacySentinel := ha.symm.trans hlegacy
      rw [markRfe, if_pos hl]
      exact ha
    · obtain ⟨hfs, hout, hd⟩ := h.outside hin
      simp only [hfs, noteTop]
      exact .empty hout hd

theorem Stacked.rfe (h : Stacked s s.frames) (site : RfeSite) :
    Stacked (s.rfe site) (s.rfe site).frames := by
  have hpop := h.popped (s.cpu.setCop0 copSr (site.pop s.sr))
  unfold Host.rfe
  split
  case isTrue => exact hpop.markEscape
  case isFalse => exact hpop

theorem Stacked.step (h : Stacked s s.frames) {op : Op M} {t : Host M} (hop : step E op s = some t) :
    Stacked t t.frames := by
  cases op with
  | guest g =>
    obtain rfl := some.inj hop
    exact h.same ⟨rfl, rfl, rfl, rfl, rfl, rfl, rfl⟩ rfl
  | check =>
    obtain rfl := some.inj hop
    exact h.check E
  | rfe site =>
    obtain rfl := some.inj hop
    exact h.rfe site
  | exit e => exact Exit.exec_stacked E h hop
  | switchFiber f =>
    obtain rfl := some.inj hop
    split
    · exact h
    · next hin =>
      obtain ⟨hfs, hout, hd⟩ := h.outside hin
      rw [show ({ s with fiber := f } : Host M).frames = [] from hfs]
      exact .empty hout hd

abbrev Reachable (s : Host M) : Prop := Runs.Reached (Interrupts.step E) (fun _ _ => True) Boot s

theorem Reachable.stacked (h : Reachable E s) : Stacked s s.frames := by
  refine Runs.Reached.invariant (I := fun s => Stacked s s.frames) ?_ ?_ h
  · rintro s ⟨hfs, hin, hd⟩
    rw [hfs]
    exact .empty hin hd
  · intro op s t hs _ hop
    exact hs.step E hop

end

/-! ## 8. Bracketing -/

/-- After a return: the activation is gone, the caller finds what it had, and, if by the activation's own
EPC and escape reason the thread is the same, its registers. -/
structure Restored (p : Host M) (a : Activation) (fs : List Activation) (t : Host M) : Prop where
  frames : t.frames = fs
  inException : t.inException = a.entry.inException
  nestDepth : t.nestDepth = a.entry.nestDepth
  ownerFiber : t.ownerFiber = a.entry.ownerFiber
  dispatchDepth : t.dispatchDepth = a.entry.dispatchDepth
  regs : p.doRestore E a.epc a.reason a.toLocals = true →
    t.cpu.gpr = a.entry.gpr ∧ t.cpu.hi = a.entry.hi ∧ t.cpu.lo = a.entry.lo

/-- The exit belongs to the innermost activation `a`: a jump goes to it, and a return decides by what it
installed and what its handler chose, and restores its caller. -/
def Bracketed (e : Exit) (s : Host M) : Prop :=
  ∀ a fs, (e.prepare E s).frames = a :: fs →
    (e ≠ .plainReturn → (e.prepare E s).jmpbuf = some a.id) ∧
    (e ≠ .restoreState →
      (e.prepare E s).realEpc = a.epc ∧ (e.prepare E s).reason = a.reason ∧
        ∃ t, e.exec E s = some t ∧ Restored E (e.prepare E s) a fs t)

/-- Nothing was delivered inside the handler that is running, or it returns plainly and what was delivered
last had the same EPC. -/
def Undisturbed (e : Exit) (s : Host M) : Prop :=
  ∀ a ∈ s.frames.head?, a.nested = none ∨ e = .plainReturn ∧ a.nested = some a.epc

section
variable {s : Host M} {e : Exit} {a : Activation} {fs : List Activation}

theorem Stacked.restored (h : Stacked s (a :: fs)) (hepc : s.realEpc = a.epc) :
    Restored E s a fs (s.epilogue E a fs) := by
  obtain ⟨depth, he, hd⟩ : ∃ depth, a.Entered depth ∧ s.nestDepth = depth + 1 := by
    cases h with
    | one _ hd _ he => exact ⟨0, he, hd⟩
    | two _ hd _ _ he => exact ⟨1, he, hd⟩
  refine ⟨rfl, he.inException, ?_, he.ownerFiber, he.dispatchDepth, fun hsame => ?_⟩
  · change s.nestDepth - 1 = a.entry.nestDepth
    rw [he.depth, hd]
    rfl
  · rw [← hepc, ← h.top.2.reason] at hsame
    obtain ⟨hg, hhi, hlo⟩ := he.regs
    simp only [Host.epilogue, Host.exitCpu, hsame, if_true]
    split_ifs <;> exact ⟨hg, hhi, hlo⟩

theorem Exit.prepare_head (hf : (e.prepare E s).frames = a :: fs) :
    ∃ b, s.frames.head? = some b ∧ b.nested = a.nested ∧ b.epc = a.epc := by
  cases e with
  | returnFromException =>
    cases hs : s.frames with
    | nil => simp [Exit.prepare, Host.popped, hs, noteTop] at hf
    | cons b bs =>
      simp only [Exit.prepare, Host.popped, hs, noteTop, List.cons.injEq] at hf
      obtain ⟨rfl, -⟩ := hf
      exact ⟨b, rfl, rfl, rfl⟩
  | _ =>
    have hs : s.frames = a :: fs := hf
    exact ⟨a, by rw [hs]; rfl, rfl, rfl⟩

/-- **An exit is well bracketed** exactly if nothing was delivered inside the handler, or it returns
plainly and the inner delivery installed the EPC the outer one has: the jump buffer and the real EPC are
globals that an inner delivery overwrites and does not put back. -/
theorem bracketed_iff (hs : Reachable E s) (ht : e.Taken E s) :
    Bracketed E e s ↔ Undisturbed e s := by
  have hstack := hs.stacked
  obtain ⟨a, fs, hf⟩ := Exit.Taken.frames_ne E ht hstack
  obtain ⟨b, hhead, hnested, hbepc⟩ := Exit.prepare_head E hf
  have hp := hstack.prepare E e
  rw [hf] at hp
  obtain ⟨-, htop⟩ := hp.top
  constructor
  · intro hbr c hc
    obtain rfl : b = c := some.inj (hhead.symm.trans hc)
    rw [hnested, hbepc]
    obtain ⟨hjump, hreturn⟩ := hbr a fs hf
    cases hn : a.nested with
    | none => exact .inl rfl
    | some x =>
      refine .inr ?_
      obtain ⟨i, hi, hlt⟩ := htop.dead (by rw [hn]; exact nofun)
      have hplain : e = .plainReturn := by
        by_contra hne
        have heq := some.inj (hi.symm.trans (hjump hne))
        omega
      have hepc := (hreturn (by rw [hplain]; exact nofun)).1
      rw [htop.epc, hn] at hepc
      exact ⟨hplain, congrArg some hepc⟩
  · intro hund a' fs' hf'
    obtain ⟨rfl, rfl⟩ := List.cons.inj (hf.symm.trans hf')
    have hund' := hund b hhead
    rw [hnested, hbepc] at hund'
    have hepc : (e.prepare E s).realEpc = a.epc := by
      rw [htop.epc]
      rcases hund' with hn | ⟨-, hn⟩ <;> rw [hn] <;> rfl
    constructor
    · intro hne
      rcases hund' with hn | ⟨hplain, -⟩
      · exact htop.own hn
      · exact absurd hplain hne
    · intro hne
      refine ⟨hepc, htop.reason, ?_⟩
      rcases Exit.exec_cases E hstack ht hf with ⟨hne', hn, -⟩ | ⟨hrestore, -⟩ | ⟨-, d, heq⟩
      · rcases hund' with hn' | ⟨hplain, -⟩
        · exact absurd hn' hn
        · exact absurd hplain hne'
      · exact absurd hrestore hne
      · have hres := (hp.depth d).restored E hepc
        exact ⟨_, heq, hres.frames, hres.inException, hres.nestDepth, hres.ownerFiber,
          hres.dispatchDepth, hres.regs⟩

end

/-! ## 9. One push, one pop -/

/-- The code that resumes finds the status its handler popped, if that popped once; the epilogue does not
pop then, and it pops once for a handler that never did. -/
def OnePop (e : Exit) (s t : Host M) : Prop :=
  ∀ a fs, (e.prepare E s).frames = a :: fs →
    (∀ v, a.pops = [v] → (e.prepare E s).sr = v → t.sr = v ∧ t.epiloguePops = s.epiloguePops) ∧
    (a.pops = [] → t.sr = srPop (e.prepare E s).sr ∧ t.epiloguePops = s.epiloguePops + 1)

/-- `IEc` says whether the handler has popped. -/
def EnabledByRfe (e : Exit) (s : Host M) : Prop :=
  ∀ a fs, (e.prepare E s).frames = a :: fs →
    (∀ v, a.pops = [v] → (e.prepare E s).sr = v → iec v = true) ∧
    (a.pops = [] → iec (e.prepare E s).sr = false)

section
variable {s t : Host M} {e : Exit} {a : Activation} {fs : List Activation}

theorem epilogue_sr (s : Host M) (a : Activation) (fs : List Activation) :
    (s.epilogue E a fs).sr = (if iec s.sr then s.sr else srPop s.sr) ∧
      (s.epilogue E a fs).epiloguePops =
        if iec s.sr then s.epiloguePops else s.epiloguePops + 1 := by
  refine ⟨?_, rfl⟩
  change (s.exitCpu E a.toLocals).cop0 copSr = _
  unfold Host.exitCpu
  cases iec s.sr with
  | true =>
    split_ifs <;> rfl
  | false => simp only [Bool.false_eq_true, if_false, Cpu.setCop0, Function.update_self]

theorem Exit.exec_sr (h : Stacked s s.frames) (ht : e.Taken E s) (he : e ≠ .restoreState)
    (hexec : e.exec E s = some t) :
    t.sr = (if iec (e.prepare E s).sr then (e.prepare E s).sr else srPop (e.prepare E s).sr) ∧
      t.epiloguePops =
        if iec (e.prepare E s).sr then s.epiloguePops else s.epiloguePops + 1 := by
  obtain ⟨a, fs, hf⟩ := Exit.Taken.frames_ne E ht h
  have hcount : (e.prepare E s).epiloguePops = s.epiloguePops := by cases e <;> rfl
  rcases Exit.exec_cases E h ht hf with ⟨-, -, heq⟩ | ⟨hrestore, -⟩ | ⟨-, d, heq⟩
  · rw [heq] at hexec
    cases hexec
  · exact absurd hrestore he
  · obtain rfl := some.inj (heq.symm.trans hexec)
    rw [← hcount]
    exact epilogue_sr E { e.prepare E s with dispatchDepth := d } a fs

/-- **The status register is pushed once and popped once** exactly if `IEc` is set by the handler's
`RFE`, and clear at the end of a handler without one: the epilogue takes `IEc` for the record of an
`RFE`. -/
theorem one_pop_iff (hs : Reachable E s) (ht : e.Taken E s) (he : e ≠ .restoreState)
    (hexec : e.exec E s = some t) : OnePop E e s t ↔ EnabledByRfe E e s := by
  obtain ⟨hsr, hcount⟩ := Exit.exec_sr E hs.stacked ht he hexec
  constructor
  · intro hone a fs hf
    obtain ⟨hpop, hnone⟩ := hone a fs hf
    constructor
    · intro v hv hp
      by_contra hoff
      have hsame := (hpop v hv hp).2
      rw [hcount, hp, if_neg hoff] at hsame
      omega
    · intro hv
      by_contra hon
      have honce := (hnone hv).2
      rw [hcount, if_pos (Bool.eq_true_of_not_eq_false hon)] at honce
      omega
  · intro hen a fs hf
    obtain ⟨hpop, hnone⟩ := hen a fs hf
    constructor
    · intro v hv hp
      have hon := hpop v hv hp
      rw [hsr, hcount, hp, if_pos hon, if_pos hon]
      exact ⟨rfl, rfl⟩
    · intro hv
      have hoff : ¬ iec (e.prepare E s).sr = true := by
        rw [hnone hv]
        exact nofun
      rw [hsr, hcount, if_neg hoff, if_neg hoff]
      exact ⟨rfl, rfl⟩

end

end

/-! ## 10. Runs on a concrete machine -/

def demoEnv : Env Word := ⟨oneWord, .samePc, id⟩

/-- An interrupt is pending and enabled, and the code it interrupts has an address. -/
def demoBoot (m : Word) : Host Word where
  cpu := (zeroCpu m).setCop0 copSr 0x401#32
  inException := false
  nestDepth := 0
  rfePending := false
  reason := .none
  realEpc := 0#32
  jmpbuf := none
  ownerFiber := none
  pending := none
  dispatchDepth := 1
  fiber := 0
  istat := 1#32
  imask := 1#32
  now := 0
  cooldownUntil := 0
  dirtySafeResumePc := 0#32
  compiledResumePc := 0x80010000#32
  frames := []
  nextId := 0
  epiloguePops := 0

def demoHandler (m : Word) : Host Word := (demoBoot m).psxCheckInterrupts demoEnv

theorem demoHandler_reachable (m : Word) : Reachable demoEnv (demoHandler m) :=
  .next (a := .check) (.start ⟨rfl, rfl, rfl⟩) trivial rfl

/-- The handler enables interrupts again and is interrupted, and the inner handler has done its `RFE`. -/
def innerRun : List (Op Word) :=
  [.check,
    .guest ⟨(zeroCpu 0#32).setCop0 copSr 0x405#32, 0, 1#32, 1#32, 100, 0#32, 0x80020000#32⟩,
    .check, .rfe .biosCode]

/-- The inner handler returns, and the outer one does its `RFE`. -/
def nestedRun : List (Op Word) := innerRun ++ [.exit .rfeCheck, .rfe .biosCode]

theorem reachable_foldlM {ops : List (Op Word)} {s t : Host Word} (hs : Reachable demoEnv s)
    (h : ops.foldlM (fun s op => step demoEnv op s) s = some t) : Reachable demoEnv t := by
  induction ops generalizing s with
  | nil => exact some.inj h ▸ hs
  | cons op ops ih =>
    obtain ⟨s', hs', h'⟩ := Option.bind_eq_some_iff.mp h
    exact ih (.next hs trivial hs') h'

/-- The return of the inner handler -/
theorem bracketed_inner :
    ∃ s, innerRun.foldlM (fun s op => step demoEnv op s) (demoBoot 0#32) = some s ∧
      s.frames.map (·.id) = [1, 0] ∧ Exit.rfeCheck.Taken demoEnv s ∧ Bracketed demoEnv .rfeCheck s := by
  let look : Host Word → Bool × Bool × Option Nat × Nat × List (Nat × Option Word) := fun s =>
    (s.rfePending, s.inException, s.ownerFiber, s.fiber, s.frames.map fun a => (a.id, a.nested))
  have hlook : (innerRun.foldlM (fun s op => step demoEnv op s) (demoBoot 0#32)).map look =
      some (true, true, some 0, 0, [(1, none), (0, some 0x80020000#32)]) := rfl
  obtain ⟨s, hs, hseen⟩ := map_eq_some_iff.mp hlook
  simp only [look, Prod.mk.injEq] at hseen
  obtain ⟨hpend, hin, howner, hfiber, hframes⟩ := hseen
  have ht : Exit.rfeCheck.Taken demoEnv s := ⟨hpend, hin, by rw [howner, hfiber]⟩
  have hids := congrArg (List.map Prod.fst) hframes
  rw [List.map_map] at hids
  refine ⟨s, hs, hids, ht, (bracketed_iff demoEnv (reachable_foldlM (.start ⟨rfl, rfl, rfl⟩) hs) ht).mpr ?_⟩
  intro a ha
  obtain ⟨fs, hf⟩ := List.head?_eq_some_iff.mp ha
  rw [hf, map_cons, List.cons.injEq, Prod.mk.injEq] at hframes
  exact .inl hframes.1.2

/-- The jump buffer is the inner activation's, which has returned, and the jump of the outer handler is
lost. -/
theorem outer_escape_lost :
    ∃ s, nestedRun.foldlM (fun s op => step demoEnv op s) (demoBoot 0#32) = some s ∧
      Exit.rfeCheck.Taken demoEnv s ∧ s.frames.map (·.id) = [0] ∧ s.jmpbuf = some 1 ∧
      Exit.rfeCheck.exec demoEnv s = none ∧ ¬ Bracketed demoEnv .rfeCheck s := by
  let look : Host Word → Bool × Bool × Option Nat × Nat × List Nat × Option Nat × Bool := fun s =>
    (s.rfePending, s.inException, s.ownerFiber, s.fiber, s.frames.map (·.id), s.jmpbuf,
      (Exit.rfeCheck.exec demoEnv s).isNone)
  have hlook : (nestedRun.foldlM (fun s op => step demoEnv op s) (demoBoot 0#32)).map look =
      some (true, true, some 0, 0, [0], some 1, true) := rfl
  obtain ⟨s, hs, hseen⟩ := map_eq_some_iff.mp hlook
  simp only [look, Prod.mk.injEq] at hseen
  obtain ⟨hpend, hin, howner, hfiber, hids, hjump, hlost⟩ := hseen
  refine ⟨s, hs, ⟨hpend, hin, by rw [howner, hfiber]⟩, hids, hjump, isNone_iff_eq_none.mp hlost,
    fun hbr => ?_⟩
  cases hf : s.frames with
  | nil =>
    rw [hf] at hids
    cases hids
  | cons a fs =>
    rw [hf, map_cons, List.cons.injEq] at hids
    have heq : s.jmpbuf = some a.id := (hbr a fs hf).1 nofun
    rw [hjump, hids.1] at heq
    cases heq

/-- The handler returns to a thread whose saved status has interrupts enabled. -/
theorem one_pop_enabled :
    ∃ t, Exit.returnFromException.exec demoEnv (demoHandler 0x404#32) = some t ∧
      (OnePop demoEnv .returnFromException (demoHandler 0x404#32) t ↔
        EnabledByRfe demoEnv .returnFromException (demoHandler 0x404#32)) := by
  have ht : Exit.returnFromException.Taken demoEnv (demoHandler 0x404#32) :=
    ⟨by decide +kernel, by decide +kernel⟩
  have hsome : (Exit.returnFromException.exec demoEnv (demoHandler 0x404#32)).isSome = true := by
    decide +kernel
  obtain ⟨t, hexec⟩ := Option.isSome_iff_exists.mp hsome
  exact ⟨t, hexec, one_pop_iff demoEnv (demoHandler_reachable _) ht nofun hexec⟩

/-- The thread that is resumed has interrupts disabled, and the second pop enables them. -/
theorem second_pop_enables :
    ∃ t, Exit.returnFromException.exec demoEnv (demoHandler 0x430#32) = some t ∧
      (Exit.returnFromException.prepare demoEnv (demoHandler 0x430#32)).sr = 0x40C#32 ∧
      t.sr = 0x403#32 ∧ ¬ OnePop demoEnv .returnFromException (demoHandler 0x430#32) t := by
  have hlook : (Exit.returnFromException.exec demoEnv (demoHandler 0x430#32)).map (·.sr) =
      some 0x403#32 := by decide +kernel
  have hsr : (Exit.returnFromException.prepare demoEnv (demoHandler 0x430#32)).sr = 0x40C#32 := by
    decide +kernel
  have hpops : (Exit.returnFromException.prepare demoEnv (demoHandler 0x430#32)).frames.map (·.pops) =
      [[0x40C#32]] := by decide +kernel
  obtain ⟨t, hexec, ht⟩ := map_eq_some_iff.mp hlook
  refine ⟨t, hexec, hsr, ht, fun hone => ?_⟩
  cases hf : (Exit.returnFromException.prepare demoEnv (demoHandler 0x430#32)).frames with
  | nil =>
    rw [hf] at hpops
    cases hpops
  | cons a fs =>
    rw [hf, map_cons, List.cons.injEq] at hpops
    have heq := ((hone a fs hf).1 _ hpops.1 hsr).1
    rw [ht] at heq
    cases heq

end PsxRecomp.Interrupts
