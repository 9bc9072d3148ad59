import PsxRecomp.Runtime.Interrupts
import PsxRecomp.Runtime.Ram

/-!
# `Runtime/Threads.lean` — thread switches through the kernel's control blocks

The TCB scheduler of `runtime/src/traps.c`. `psx_request_thread_switch` (syscall 3 outside an exception)
writes the running thread's registers to its control block, makes the target the current thread and
jumps to `psx_scheduler_run`, which loads the target's registers and dispatches its resume address. No
host stack is kept for a thread, so its context is what its save area holds. The writes are ordinary
stores, so this needs the areas to be RAM of their own (`layout_needed`), and the cache not isolated:
then a store is dropped, and so would be the switch (`isolated_switch_lost`).
-/

set_option autoImplicit false

open Function

namespace PsxRecomp.Threads

open Interrupts (copSr copCause srPush srPop sentinelPc)
open Ram List

/-! ## 1. Memory -/

abbrev Mem := Nat → Byte

abbrev Other := Word → Word

/-- `psx_read_word` -/
def readWord (other : Other) (m : Mem) (a : Word) : Word :=
  if a.toNat < 0xC0000000 ∧ physAddr a < ramSize then Words.leWord m (physAddr a) else other a

/-- `psx_write_word`, as far as it changes RAM -/
def writeWord (isolated : Bool) (m : Mem) (a v : Word) : Mem :=
  match storeTarget isolated a with
  | some o => write m o (Width.word.bytes v)
  | none => m

/-- `IsC` -/
def isolated (c : Cpu Mem) : Bool := (c.cop0 copSr).getLsbD 16

/-! ## 2. Control blocks -/

section
variable (other : Other)

/-- `psx_is_valid_tcb` -/
def isValidTcb (m : Mem) (tcb : Word) : Bool :=
  let base := readWord other m 0x110#32
  let size := readWord other m 0x114#32
  decide (base ≠ 0#32 ∧ size ≠ 0#32 ∧ tcb - base < size ∧ (tcb - base) % 0xC0#32 = 0#32)

/-- `psx_current_tcb_ptr` -/
def currentTcbPtr (m : Mem) : Word :=
  let tcbh := readWord other m 0x108#32
  if tcbh ≠ 0#32 then readWord other m tcbh else 0#32

/-- `psx_set_current_tcb` -/
def setCurrentTcb (iso : Bool) (m : Mem) (tcb : Word) : Mem :=
  let tcbh := readWord other m 0x108#32
  if tcbh ≠ 0#32 then writeWord iso m tcbh tcb else m

/-- `psx_tcb_state` -/
def tcbState (m : Mem) (tcb : Word) : Word :=
  if isValidTcb other m tcb then readWord other m tcb else 0#32

/-- The registers that are kept: all but `$zero` and `k0` -/
def savedRegs : List Reg :=
  ((List.range 32).map (BitVec.ofNat 5)).filter fun i => i ≠ 0#5 ∧ i ≠ 26#5

def saveWords (c : Cpu Mem) (resumePc : Word) : List (Nat × Word) :=
  savedRegs.map (fun i => (4 * i.toNat, c.gpr i)) ++
    [(128, resumePc), (132, c.hi), (136, c.lo), (140, srPush (c.cop0 copSr)), (144, c.cop0 copCause)]

def saveAddr (tcb : Word) (off : Nat) : Word := tcb + 8#32 + BitVec.ofNat 32 off

def saveMem (c : Cpu Mem) (tcb resumePc : Word) : Mem :=
  (saveWords c resumePc).foldl (fun m p => writeWord (isolated c) m (saveAddr tcb p.1) p.2) c.mem

/-- `psx_save_context_to_tcb`; none if it halts -/
def saveContextToTcb (c : Cpu Mem) (tcb resumePc : Word) : Option (Cpu Mem) :=
  if resumePc = sentinelPc then none else some { c with mem := saveMem c tcb resumePc }

/-- `psx_restore_context_from_tcb`, and the address it returns -/
def restoreContextFromTcb (c : Cpu Mem) (tcb : Word) : Option (Cpu Mem × Word) :=
  let word := fun off => readWord other c.mem (saveAddr tcb off)
  if word 128 = sentinelPc then none
  else
    some ({ c with
      gpr := fun i =>
        if i = 0#5 then c.gpr 0#5 else if i = 26#5 then word 128 else word (4 * i.toNat)
      hi := word 132
      lo := word 136
      cop0 := Function.update (Function.update c.cop0 copSr (srPop (word 140))) copCause (word 144) },
      word 128)

/-! ## 3. The scheduler -/

/-- `psx_run_reason_t` -/
inductive RunReason
  | cont | yieldToTcb | resumeCurrent | guestExit | fatal
deriving DecidableEq, Repr

/-- The registers and RAM, `g_sched_escape`, `g_sched_return_tcb`, `g_psx_dispatch_depth` and
`g_psx_call_bail` -/
structure Sched where
  cpu : Cpu Mem
  reason : RunReason
  resumePc : Word
  returnTcb : Word
  dispatchDepth : Int
  callBail : Bool

/-- How `psx_request_thread_switch` ends -/
inductive Request
  | declined | same | halted
  | yield (s : Sched)

/-- The context of the thread that is switched away from is kept: it is still running. -/
def saves (s : Sched) : Bool :=
  decide (tcbState other s.cpu.mem (currentTcbPtr other s.cpu.mem) = 0x4000#32)

/-- `psx_request_thread_switch` -/
def requestThreadSwitch (s : Sched) (target : Word) : Request :=
  let m := s.cpu.mem
  let current := currentTcbPtr other m
  if ¬ (isValidTcb other m current = true ∧ isValidTcb other m target = true) then .declined
  else if current = target then .same
  else if tcbState other m target ≠ 0x4000#32 then .declined
  else
    match if saves other s then saveContextToTcb s.cpu current (s.cpu.gpr 31#5) else some s.cpu with
    | none => .halted
    | some c =>
      .yield { s with
        cpu := { c with mem := setCurrentTcb other (isolated c) c.mem target }
        returnTcb := current
        resumePc := 0#32
        reason := .yieldToTcb }

/-- `psx_is_dispatchable` -/
def isDispatchable (pc : Word) : Bool := decide (pc ≠ 0#32 ∧ pc ≠ sentinelPc)

/-- `psx_scheduler_run` from its `setjmp` to the dispatch: the registers it dispatches with, or none if
it ends or halts. -/
def schedulerRun (escaped : Bool) (s : Sched) : Option Sched :=
  let s := if escaped then { s with dispatchDepth := 0, callBail := false } else s
  if s.reason = .fatal ∨ s.reason = .guestExit then none
  else
    let run := fun (c : Cpu Mem) (pc : Word) =>
      { s with cpu := { c with pc := pc }, reason := .cont }
    if s.reason = .resumeCurrent ∧ s.resumePc ≠ 0#32 then some (run s.cpu s.resumePc)
    else
      let cur := currentTcbPtr other s.cpu.mem
      if isValidTcb other s.cpu.mem cur then
        match restoreContextFromTcb other s.cpu cur with
        | none => none
        | some (c, pc) => if isDispatchable pc then some (run c pc) else none
      else some (run s.cpu s.cpu.pc)

/-- The dispatch has returned: the thread that yielded to this one goes on. -/
def dispatchReturned (s : Sched) : Option Sched :=
  if isValidTcb other s.cpu.mem s.returnTcb = true ∧
      s.returnTcb ≠ currentTcbPtr other s.cpu.mem then
    schedulerRun other false { s with
      cpu := { s.cpu with mem := setCurrentTcb other (isolated s.cpu) s.cpu.mem s.returnTcb }
      returnTcb := 0#32
      reason := .yieldToTcb }
  else none

/-! ## 4. Runs -/

/-- The registers of a thread, as it was switched away from -/
structure Context where
  gpr : Reg → Word
  hi : Word
  lo : Word
  status : Word
  cause : Word

def contextOf (c : Cpu Mem) : Context := ⟨c.gpr, c.hi, c.lo, c.cop0 copSr, c.cop0 copCause⟩

/-- The scheduler, and for each thread the registers at its last switch away -/
structure Traced where
  sched : Sched
  away : Word → Option Context

inductive Op
  /-- guest code runs, up to here -/
  | guest (cpu : Cpu Mem) (dispatchDepth : Int) (callBail : Bool)
  /-- syscall 3, with the target in `$a1` -/
  | switch
  /-- the dispatched thread returns -/
  | finish

def step : Op → Traced → Option Traced
  | .guest cpu depth bail, t =>
    some { t with sched := { t.sched with cpu := cpu, dispatchDepth := depth, callBail := bail } }
  | .switch, t =>
    match requestThreadSwitch other t.sched (t.sched.cpu.gpr 5#5) with
    | .declined | .same => some t
    | .halted => none
    | .yield s =>
      (schedulerRun other true s).map fun s' =>
        { sched := s'
          away := if saves other t.sched then Function.update t.away
            (currentTcbPtr other t.sched.cpu.mem) (some (contextOf t.sched.cpu)) else t.away }
  | .finish, t => (dispatchReturned other t.sched).map fun s' => { t with sched := s' }

def resumed (t : Traced) : Op → Option Word
  | .guest _ _ _ => none
  | .switch =>
    match requestThreadSwitch other t.sched (t.sched.cpu.gpr 5#5) with
    | .yield _ => some (t.sched.cpu.gpr 5#5)
    | _ => none
  | .finish => some t.sched.returnTcb

end

/-! ## 5. Save areas -/

def areaStart (tcb : Word) : Nat := tcb.toNat % ramSize + 8

structure InRam (tcb : Word) : Prop where
  segment : tcb.toNat < 0xC0000000
  window : tcb.toNat % 2 ^ 29 < 0x800000
  fits : tcb.toNat % ramSize + 156 ≤ ramSize

/-- Each thread has an area of its own, and the words the kernel finds its tables by are in none. -/
structure Layout (T : Word → Prop) : Prop where
  inRam : ∀ u, T u → InRam u
  apart : ∀ u v, T u → T v → u ≠ v →
    areaStart u + 148 ≤ areaStart v ∨ areaStart v + 148 ≤ areaStart u
  kernel : ∀ u, T u → areaStart u + 148 ≤ 0x108 ∨ 0x118 ≤ areaStart u

def SameOn (lo n : Nat) (m m' : Mem) : Prop := ∀ k, lo ≤ k → k < lo + n → m' k = m k

def contextWords (x : Context) : List (Nat × Word) :=
  savedRegs.map (fun i => (4 * i.toNat, x.gpr i)) ++
    [(128, x.gpr 31#5), (132, x.hi), (136, x.lo), (140, srPush x.status), (144, x.cause)]

def Holds (m : Mem) (tcb : Word) (x : Context) : Prop :=
  ∀ p ∈ contextWords x, Words.leWord m (areaStart tcb + p.1) = p.2

section
variable {other : Other} {m m' : Mem} {u v : Word} {off lo n : Nat} {c : Cpu Mem}

theorem SameOn.leWord (h : SameOn lo n m m') (h₁ : lo ≤ off) (h₂ : off + 4 ≤ lo + n) :
    Words.leWord m' off = Words.leWord m off := by
  unfold Words.leWord
  rw [h off h₁ (by omega), h (off + 1) (by omega) (by omega), h (off + 2) (by omega) (by omega),
    h (off + 3) (by omega) (by omega)]

theorem InRam.saveAddr (h : InRam u) (hoff : off + 4 ≤ 148) :
    (saveAddr u off).toNat < 0xC0000000 ∧ physAddr (saveAddr u off) = areaStart u + off ∧
      areaStart u + off < ramSize := by
  obtain ⟨hseg, hwin, hfits⟩ := h
  have hsize : ramSize = 0x200000 := rfl
  rw [hsize] at hfits
  have hnat : (Threads.saveAddr u off).toNat = u.toNat + 8 + off := by
    have hoff' : (BitVec.ofNat 32 off).toNat = off := by
      rw [BitVec.toNat_ofNat]
      omega
    have h8 : (8#32 : Word).toNat = 8 := rfl
    rw [Threads.saveAddr, BitVec.toNat_add, BitVec.toNat_add, hoff', h8]
    omega
  have harea : areaStart u = u.toNat % 0x200000 + 8 := rfl
  refine ⟨by omega, ?_, by omega⟩
  unfold physAddr
  rw [hnat, hsize, if_pos (by omega)]
  omega

theorem readWord_area (h : InRam u) (hoff : off + 4 ≤ 148) :
    readWord other m (saveAddr u off) = Words.leWord m (areaStart u + off) := by
  obtain ⟨hseg, hphys, hlt⟩ := h.saveAddr hoff
  rw [readWord, if_pos ⟨hseg, hphys ▸ hlt⟩, hphys]

theorem writeWord_area (h : InRam u) (hoff : off + 4 ≤ 148) (w : Word) :
    writeWord false m (saveAddr u off) w = write m (areaStart u + off) (Width.word.bytes w) := by
  obtain ⟨hseg, hphys, hlt⟩ := h.saveAddr hoff
  have htarget : storeTarget false (saveAddr u off) = some (areaStart u + off) := by
    unfold storeTarget
    rw [if_neg (by simp; omega), if_pos (hphys ▸ hlt), hphys]
  rw [writeWord, htarget]

def saveOffsets : List Nat := savedRegs.map (fun i => 4 * i.toNat) ++ [128, 132, 136, 140, 144]

theorem saveOffsets_spec : (∀ o ∈ saveOffsets, o % 4 = 0 ∧ o + 4 ≤ 148) ∧ saveOffsets.Nodup := by
  decide +kernel

theorem contextWords_offset {x : Context} {p : Nat × Word} (hp : p ∈ contextWords x) :
    p.1 % 4 = 0 ∧ p.1 + 4 ≤ 148 := by
  refine saveOffsets_spec.1 p.1 ?_
  exact mem_map_of_mem hp

theorem saveMem_eq (h : InRam u) (hiso : isolated c = false) :
    saveMem c u (c.gpr 31#5) =
      writeWords c.mem ((contextWords (contextOf c)).map fun p => (areaStart u + p.1, p.2)) := by
  have hfold : ∀ (ws : List (Nat × Word)) (m : Mem), (∀ p ∈ ws, p.1 + 4 ≤ 148) →
      ws.foldl (fun m p => writeWord false m (saveAddr u p.1) p.2) m =
        writeWords m (ws.map fun p => (areaStart u + p.1, p.2)) := by
    intro ws
    induction ws with
    | nil => exact fun _ _ => rfl
    | cons p ws ih =>
      intro m hws
      obtain ⟨hp, hrest⟩ := forall_mem_cons.mp hws
      rw [foldl_cons, writeWord_area h hp, ih _ hrest]
      rfl
  rw [saveMem, hiso]
  exact hfold (contextWords (contextOf c)) c.mem fun p hp => (contextWords_offset hp).2

theorem saveMem_holds (h : InRam u) (hiso : isolated c = false) :
    Holds (saveMem c u (c.gpr 31#5)) u (contextOf c) := by
  intro p hp
  rw [saveMem_eq h hiso]
  refine leWord_writeWords (areaStart u % 4) ?_ ?_ (mem_map_of_mem hp)
  · intro q hq
    obtain ⟨r, hr, rfl⟩ := mem_map.mp hq
    have hoff := (contextWords_offset hr).1
    omega
  · have hmap : ((contextWords (contextOf c)).map fun p => (areaStart u + p.1, p.2)).map Prod.fst =
        saveOffsets.map (areaStart u + ·) := by
      rfl
    rw [hmap]
    exact saveOffsets_spec.2.map fun a b hab => Nat.add_left_cancel hab

theorem saveMem_other (h : InRam u) (hiso : isolated c = false) {k : Nat}
    (hk : k < areaStart u ∨ areaStart u + 148 ≤ k) : saveMem c u (c.gpr 31#5) k = c.mem k := by
  rw [saveMem_eq h hiso]
  refine writeWords_of_not_mem fun q hq hin => ?_
  obtain ⟨r, hr, rfl⟩ := mem_map.mp hq
  have hoff := (contextWords_offset hr).2
  omega

theorem Holds.same {x : Context} (h : Holds m u x) (hs : SameOn (areaStart u) 148 m m') :
    Holds m' u x := by
  intro p hp
  have hoff := (contextWords_offset hp).2
  rw [hs.leWord (by omega) (by omega)]
  exact h p hp

end

/-! ## 6. The kernel's words -/

/-- The pointer to the current thread is a word of RAM that belongs to nothing else. -/
structure PointerOk (other : Other) (T : Word → Prop) (m : Mem) : Prop where
  ne : readWord other m 0x108#32 ≠ 0#32
  segment : (readWord other m 0x108#32).toNat < 0xC0000000
  ram : physAddr (readWord other m 0x108#32) < ramSize
  kernel : physAddr (readWord other m 0x108#32) + 4 ≤ 0x108 ∨
    0x118 ≤ physAddr (readWord other m 0x108#32)
  areas : ∀ u, T u → physAddr (readWord other m 0x108#32) + 4 ≤ areaStart u ∨
    areaStart u + 148 ≤ physAddr (readWord other m 0x108#32)

section
variable {other : Other} {T : Word → Prop} {m m' : Mem} {u v : Word} {c : Cpu Mem}

theorem readWord_kernel {m m' : Mem} (h : SameOn 0x108 16 m m') {a : Word}
    (ha : a = 0x108#32 ∨ a = 0x110#32 ∨ a = 0x114#32) : readWord other m' a = readWord other m a := by
  have hphys : physAddr a = a.toNat := by
    rcases ha with rfl | rfl | rfl <;> decide
  have hrange : 0x108 ≤ a.toNat ∧ a.toNat + 4 ≤ 0x108 + 16 := by
    rcases ha with rfl | rfl | rfl <;> decide
  unfold readWord
  rw [hphys, h.leWord hrange.1 hrange.2]

theorem isValidTcb_same (h : SameOn 0x108 16 m m') (tcb : Word) :
    isValidTcb other m' tcb = isValidTcb other m tcb := by
  unfold isValidTcb
  rw [readWord_kernel h (.inr (.inl rfl)), readWord_kernel h (.inr (.inr rfl))]

theorem saveMem_kernel (hL : Layout T) (hu : T u) (hiso : isolated c = false) :
    SameOn 0x108 16 c.mem (saveMem c u (c.gpr 31#5)) := by
  intro k h₁ h₂
  have hk := hL.kernel u hu
  exact saveMem_other (hL.inRam u hu) hiso (by omega)

theorem saveMem_area (hL : Layout T) (hu : T u) (hv : T v) (hne : v ≠ u) (hiso : isolated c = false) :
    SameOn (areaStart v) 148 c.mem (saveMem c u (c.gpr 31#5)) := by
  intro k h₁ h₂
  have hapart := hL.apart u v hu hv hne.symm
  exact saveMem_other (hL.inRam u hu) hiso (by omega)

theorem PointerOk.same (h : PointerOk other T m) (hs : SameOn 0x108 16 m m') : PointerOk other T m' := by
  have hp : readWord other m' 0x108#32 = readWord other m 0x108#32 := readWord_kernel hs (.inl rfl)
  constructor <;> rw [hp]
  · exact h.ne
  · exact h.segment
  · exact h.ram
  · exact h.kernel
  · exact h.areas

theorem PointerOk.setCurrentTcb (h : PointerOk other T m) (tcb : Word) :
    setCurrentTcb other false m tcb =
      write m (physAddr (readWord other m 0x108#32)) (Width.word.bytes tcb) := by
  have hseg := h.segment
  have htarget : storeTarget false (readWord other m 0x108#32) =
      some (physAddr (readWord other m 0x108#32)) := by
    unfold storeTarget
    rw [if_neg (by simp; omega), if_pos h.ram]
  simp [Threads.setCurrentTcb, if_pos h.ne, writeWord, htarget]

theorem PointerOk.set (h : PointerOk other T m) (tcb : Word) :
    currentTcbPtr other (Threads.setCurrentTcb other false m tcb) = tcb ∧
      SameOn 0x108 16 m (Threads.setCurrentTcb other false m tcb) ∧
      ∀ u, T u → SameOn (areaStart u) 148 m (Threads.setCurrentTcb other false m tcb) := by
  rw [h.setCurrentTcb tcb]
  obtain ⟨hne, hseg, hram, hk, hareas⟩ := h
  generalize hq : readWord other m 0x108#32 = q at hne hseg hram hk hareas ⊢
  have hother {k : Nat} (hk : k < physAddr q ∨ physAddr q + 4 ≤ k) :
      write m (physAddr q) (Width.word.bytes tcb) k = m k := by
    rw [write_bytes, if_neg (by omega)]
  have hkernel : SameOn 0x108 16 m (write m (physAddr q) (Width.word.bytes tcb)) :=
    fun k h₁ h₂ => hother (by omega)
  refine ⟨?_, hkernel, fun u hu k h₁ h₂ => ?_⟩
  · unfold currentTcbPtr
    rw [readWord_kernel hkernel (.inl rfl), hq, if_pos hne, readWord, if_pos ⟨hseg, hram⟩,
      leWord_write_self]
  · have hu' := hareas u hu
    exact hother (by omega)

end

/-! ## 7. Resuming -/

/-- The registers are those of the context, up to `k0` and the two oldest bits of the status; the address
is where the thread was to return to. -/
structure Matches (c : Cpu Mem) (x : Context) : Prop where
  gpr : ∀ i, i ≠ 26#5 → c.gpr i = x.gpr i
  hi : c.hi = x.hi
  lo : c.lo = x.lo
  cause : c.cop0 copCause = x.cause
  status : ∀ i, i ≠ 4 → i ≠ 5 → (c.cop0 copSr).getLsbD i = x.status.getLsbD i
  pc : c.pc = x.gpr 31#5

section
variable {other : Other} {T : Word → Prop} {u : Word} {c c' : Cpu Mem} {pc : Word} {x : Context}

theorem srPop_srPush_getLsbD (sr : Word) {i : Nat} (h₄ : i ≠ 4) (h₅ : i ≠ 5) :
    (srPop (srPush sr)).getLsbD i = sr.getLsbD i := by
  by_cases hi : i < 32
  · simp only [srPop, srPush]
    interval_cases i <;> simp_all
  · rw [BitVec.getLsbD_of_ge _ _ (by omega), BitVec.getLsbD_of_ge _ _ (by omega)]

theorem mem_savedRegs {i : Reg} (h₀ : i ≠ 0#5) (h₂₆ : i ≠ 26#5) : i ∈ savedRegs := by
  revert i
  decide

theorem restored_matches (hin : InRam u) (hh : Holds c.mem u x) (h₀ : c.gpr 0#5 = x.gpr 0#5)
    (hr : restoreContextFromTcb other c u = some (c', pc)) : Matches { c' with pc := pc } x := by
  have hword {off : Nat} {w : Word} (hm : (off, w) ∈ contextWords x) :
      readWord other c.mem (saveAddr u off) = w := by
    rw [readWord_area hin (contextWords_offset hm).2]
    exact hh _ hm
  have hlast {p : Nat × Word} (hp : p ∈ [(128, x.gpr 31#5), (132, x.hi), (136, x.lo),
      (140, srPush x.status), (144, x.cause)]) : p ∈ contextWords x :=
    mem_append_right _ hp
  unfold restoreContextFromTcb at hr
  dsimp only at hr
  split at hr
  · cases hr
  · obtain ⟨rfl, rfl⟩ := Prod.mk.inj (Option.some.inj hr)
    refine ⟨fun i hi => ?_, ?_, ?_, ?_, fun i h₄ h₅ => ?_, ?_⟩
    · dsimp only
      by_cases hz : i = 0#5
      · rw [if_pos hz, hz, h₀]
      · rw [if_neg hz, if_neg hi]
        exact hword (mem_append_left _ (mem_map.mpr ⟨i, mem_savedRegs hz hi, rfl⟩))
    · exact hword (hlast (by simp))
    · exact hword (hlast (by simp))
    · dsimp only
      exact hword (hlast (by simp))
    · dsimp only
      rw [update_of_ne (by decide), update_self,
        hword (w := srPush x.status) (hlast (by simp))]
      exact srPop_srPush_getLsbD _ h₄ h₅
    · exact hword (hlast (by simp))

theorem schedulerRun_yield {s s' : Sched} {escaped : Bool} (hreason : s.reason = .yieldToTcb)
    (hcur : currentTcbPtr other s.cpu.mem = u) (hvalid : isValidTcb other s.cpu.mem u = true)
    (h : schedulerRun other escaped s = some s') :
    (∃ c pc, restoreContextFromTcb other s.cpu u = some (c, pc) ∧ s'.cpu = { c with pc := pc }) ∧
      (escaped = true → s'.dispatchDepth = 0 ∧ s'.callBail = false) := by
  have hcpu : ∀ b : Bool, (if b then { s with dispatchDepth := 0, callBail := false } else s).cpu =
      s.cpu := by
    intro b
    cases b <;> rfl
  have hres : ∀ b : Bool, (if b then { s with dispatchDepth := 0, callBail := false } else s).reason =
      .yieldToTcb := by
    intro b
    cases b <;> exact hreason
  unfold schedulerRun at h
  simp only [hcpu, hres, reduceCtorEq, or_self, if_false, false_and, hcur, hvalid, if_true] at h
  cases hr : restoreContextFromTcb other s.cpu u with
  | none =>
    rw [hr] at h
    cases h
  | some p =>
    rw [hr] at h
    dsimp only at h
    split at h
    · obtain rfl := Option.some.inj h
      refine ⟨⟨p.1, p.2, rfl, rfl⟩, ?_⟩
      rintro rfl
      exact ⟨rfl, rfl⟩
    · cases h

end

/-! ## 8. Runs of switches -/

/-- What an operation may do: guest code leaves the save areas and `$zero` alone, and a switch is between
the threads, with the cache not isolated. -/
def Ok (other : Other) (T : Word → Prop) : Op → Traced → Prop
  | .guest cpu _ _, t =>
    cpu.gpr 0#5 = 0#32 ∧ ∀ u, T u → SameOn (areaStart u) 148 t.sched.cpu.mem cpu.mem
  | .switch, t =>
    T (currentTcbPtr other t.sched.cpu.mem) ∧ T (t.sched.cpu.gpr 5#5) ∧
      isolated t.sched.cpu = false ∧ PointerOk other T t.sched.cpu.mem
  | .finish, t =>
    T t.sched.returnTcb ∧ isolated t.sched.cpu = false ∧ PointerOk other T t.sched.cpu.mem

def Start (t : Traced) : Prop := t.sched.cpu.gpr 0#5 = 0#32 ∧ ∀ u, t.away u = none

structure Resumed (other : Other) (T : Word → Prop) (op : Op) (t t' : Traced) (tcb : Word) : Prop where
  current : currentTcbPtr other t'.sched.cpu.mem = tcb
  context : ∀ x, t'.away tcb = some x → Matches t'.sched.cpu x
  reset : op = .switch → t'.sched.dispatchDepth = 0 ∧ t'.sched.callBail = false
  others : ∀ u, T u → u ≠ currentTcbPtr other t.sched.cpu.mem →
    SameOn (areaStart u) 148 t.sched.cpu.mem t'.sched.cpu.mem

/-- The save areas hold what the threads were switched away with. -/
structure Kept (T : Word → Prop) (t : Traced) : Prop where
  zero : t.sched.cpu.gpr 0#5 = 0#32
  areas : ∀ u, T u → ∀ x, t.away u = some x → Holds t.sched.cpu.mem u x ∧ x.gpr 0#5 = 0#32

section
variable {other : Other} {T : Word → Prop} {t t' : Traced} {u : Word}

theorem SameOn.trans {lo n : Nat} {m m' m'' : Mem} (h : SameOn lo n m m') (h' : SameOn lo n m' m'') :
    SameOn lo n m m'' :=
  fun k h₁ h₂ => (h' k h₁ h₂).trans (h k h₁ h₂)

theorem SameOn.refl {lo n : Nat} (m : Mem) : SameOn lo n m m := fun _ _ _ => rfl

/-- A thread is made the current one in a memory whose save areas hold what they should, and resumed. -/
theorem resume_of_set {s s' : Sched} {m : Mem} {escaped : Bool} {away : Word → Option Context} (op : Op)
    (hL : Layout T) (hu : T u) (hp : PointerOk other T m)
    (hheld : ∀ v, T v → ∀ x, away v = some x → Holds m v x ∧ x.gpr 0#5 = 0#32)
    (hother : ∀ v, T v → v ≠ currentTcbPtr other t.sched.cpu.mem →
      SameOn (areaStart v) 148 t.sched.cpu.mem m)
    (hm : s.cpu.mem = setCurrentTcb other false m u) (hreason : s.reason = .yieldToTcb)
    (hvalid : isValidTcb other m u = true) (hzero : s.cpu.gpr 0#5 = 0#32)
    (h : schedulerRun other escaped s = some s') (hop : op = .switch → escaped = true) :
    Kept T ⟨s', away⟩ ∧ Resumed other T op t ⟨s', away⟩ u := by
  obtain ⟨hcur, hkernel, hareas⟩ := hp.set u
  have hvalid' : isValidTcb other s.cpu.mem u = true := by
    rw [hm, isValidTcb_same hkernel]
    exact hvalid
  obtain ⟨⟨c, pc, hr, hcpu⟩, hreset⟩ :=
    schedulerRun_yield hreason (by rw [hm]; exact hcur) hvalid' h
  have hframe : c.mem = s.cpu.mem ∧ c.gpr 0#5 = s.cpu.gpr 0#5 := by
    unfold restoreContextFromTcb at hr
    dsimp only at hr
    split at hr
    · cases hr
    · obtain ⟨rfl, -⟩ := Prod.mk.inj (Option.some.inj hr)
      exact ⟨rfl, rfl⟩
  have hmem : s'.cpu.mem = setCurrentTcb other false m u := by
    rw [hcpu]
    exact hframe.1.trans hm
  have hheld' (v : Word) (hv : T v) (x : Context) (hx : away v = some x) :
      Holds s'.cpu.mem v x ∧ x.gpr 0#5 = 0#32 := by
    obtain ⟨hh, h₀⟩ := hheld v hv x hx
    rw [hmem]
    exact ⟨hh.same (hareas v hv), h₀⟩
  refine ⟨⟨?_, hheld'⟩, hmem ▸ hcur, fun x hx => ?_, fun hswitch => hreset (hop hswitch), ?_⟩
  · dsimp only
    rw [hcpu]
    exact hframe.2.trans hzero
  · obtain ⟨hh, h₀⟩ := hheld' u hu x hx
    rw [hmem, ← hm] at hh
    dsimp only
    rw [hcpu]
    exact restored_matches (hL.inRam u hu) hh (hzero.trans h₀.symm) hr
  · intro v hv hne
    dsimp only
    rw [hmem]
    exact (hother v hv hne).trans (hareas v hv)

/-- A request that is granted has saved a running thread and made the target the current one. -/
theorem request_yield {s s' : Sched} {target : Word}
    (h : requestThreadSwitch other s target = .yield s') :
    isValidTcb other s.cpu.mem target = true ∧ currentTcbPtr other s.cpu.mem ≠ target ∧
      ∃ m, m = (if saves other s then
          saveMem s.cpu (currentTcbPtr other s.cpu.mem) (s.cpu.gpr 31#5) else s.cpu.mem) ∧
        s'.cpu = { s.cpu with mem := setCurrentTcb other (isolated s.cpu) m target } ∧
        s'.reason = .yieldToTcb := by
  unfold requestThreadSwitch at h
  dsimp only at h
  split_ifs at h with hvalid hsame hstate hsaves
  · refine ⟨hvalid.2, hsame, _, rfl, ?_⟩
    unfold saveContextToTcb at h
    split at h
    · cases h
    · rename_i c hc
      split_ifs at hc with hsentinel
      rw [if_pos hsaves]
      generalize saveMem s.cpu (currentTcbPtr other s.cpu.mem) (s.cpu.gpr 31#5) = m at hc ⊢
      obtain rfl := Option.some.inj hc
      obtain rfl := Request.yield.inj h
      exact ⟨rfl, rfl⟩
  · refine ⟨hvalid.2, hsame, _, rfl, ?_⟩
    obtain rfl := Request.yield.inj h
    rw [if_neg hsaves]
    exact ⟨rfl, rfl⟩

/-- A switch saves the thread that is left, and resumes the other one from what its area holds. -/
theorem Kept.switch (hL : Layout T) (hk : Kept T t) (hok : Ok other T .switch t)
    (hstep : step other .switch t = some t') :
    Kept T t' ∧ ∀ tcb, resumed other t .switch = some tcb → Resumed other T .switch t t' tcb := by
  obtain ⟨hcur, htarget, hiso, hp⟩ := hok
  cases hreq : requestThreadSwitch other t.sched (t.sched.cpu.gpr 5#5) with
  | declined | same =>
    simp only [step, hreq] at hstep
    obtain rfl := Option.some.inj hstep
    refine ⟨hk, fun tcb htcb => ?_⟩
    simp only [resumed, hreq] at htcb
    cases htcb
  | halted =>
    simp only [step, hreq] at hstep
    cases hstep
  | yield s =>
    simp only [step, hreq] at hstep
    obtain ⟨s', hrun, rfl⟩ := Option.map_eq_some_iff.mp hstep
    obtain ⟨hvalid, hne, m, hm, hcpu, hreason⟩ := request_yield hreq
    rw [hiso] at hcpu
    -- what the save leaves alone
    have hkernel : SameOn 0x108 16 t.sched.cpu.mem m := by
      rw [hm]
      split
      · exact saveMem_kernel hL hcur hiso
      · exact SameOn.refl _
    have hother (u : Word) (hu : T u) (hne' : u ≠ currentTcbPtr other t.sched.cpu.mem) :
        SameOn (areaStart u) 148 t.sched.cpu.mem m := by
      rw [hm]
      split
      · exact saveMem_area hL hcur hu hne' hiso
      · exact SameOn.refl _
    have hheld : ∀ u, T u → ∀ x, (if saves other t.sched then update t.away
        (currentTcbPtr other t.sched.cpu.mem) (some (contextOf t.sched.cpu)) else t.away) u = some x →
        Holds m u x ∧ x.gpr 0#5 = 0#32 := by
      intro u hu x hx
      by_cases hsame : u = currentTcbPtr other t.sched.cpu.mem
      · cases hs : saves other t.sched with
        | true =>
          rw [hs, if_pos rfl, hsame, update_self, Option.some.injEq] at hx
          rw [hs, if_pos rfl] at hm
          rw [← hx, hm, hsame]
          exact ⟨saveMem_holds (hL.inRam _ hcur) hiso, hk.zero⟩
        | false =>
          rw [hs, if_neg nofun] at hx hm
          rw [hm]
          exact hk.areas u hu x hx
      · have hx' : t.away u = some x := by
          split at hx
          · rwa [update_of_ne hsame] at hx
          · exact hx
        obtain ⟨hh, h₀⟩ := hk.areas u hu x hx'
        exact ⟨hh.same (hother u hu hsame), h₀⟩
    obtain ⟨hk', hres⟩ := resume_of_set .switch hL htarget (hp.same hkernel) hheld hother
      (by rw [hcpu]) hreason (by rw [isValidTcb_same hkernel]; exact hvalid)
      (by rw [hcpu]; exact hk.zero) hrun fun _ => rfl
    refine ⟨hk', fun tcb htcb => ?_⟩
    simp only [resumed, hreq, Option.some.injEq] at htcb
    exact htcb ▸ hres

theorem Kept.finish (hL : Layout T) (hk : Kept T t) (hok : Ok other T .finish t)
    (hstep : step other .finish t = some t') :
    Kept T t' ∧ Resumed other T .finish t t' t.sched.returnTcb := by
  obtain ⟨htarget, hiso, hp⟩ := hok
  obtain ⟨s', hrun, rfl⟩ := Option.map_eq_some_iff.mp hstep
  unfold dispatchReturned at hrun
  split_ifs at hrun with hc
  exact resume_of_set _ hL htarget hp hk.areas (fun _ _ _ => .refl _) (by rw [hiso]) rfl hc.1
    (by exact hk.zero) hrun nofun

theorem Kept.step (hL : Layout T) (hk : Kept T t) {op : Op} (hok : Ok other T op t)
    (hstep : Threads.step other op t = some t') :
    Kept T t' ∧ ∀ tcb, resumed other t op = some tcb → Resumed other T op t t' tcb := by
  cases op with
  | guest cpu depth bail =>
    obtain rfl := Option.some.inj hstep
    refine ⟨⟨hok.1, fun u hu x hx => ?_⟩, nofun⟩
    obtain ⟨hh, h₀⟩ := hk.areas u hu x hx
    exact ⟨hh.same (hok.2 u hu), h₀⟩
  | switch => exact hk.switch hL hok hstep
  | finish =>
    obtain ⟨hk', hres⟩ := hk.finish hL hok hstep
    refine ⟨hk', fun tcb htcb => ?_⟩
    obtain rfl := Option.some.inj htcb
    exact hres

/-- **Thread switches preserve contexts.** In every run of switches, of threads that end and of guest
code that leaves the save areas of the threads `T` alone, a thread that is resumed has the registers of
its last switch away, is the current one, and no other save area has changed. -/
theorem switch_preserves (hL : Layout T)
    (h : Runs.Reached (Threads.step other) (Ok other T) Start t) {op : Op} (hok : Ok other T op t)
    (hstep : Threads.step other op t = some t') {tcb : Word} (htcb : resumed other t op = some tcb) :
    Resumed other T op t t' tcb := by
  have hk : Kept T t := by
    refine Runs.Reached.invariant (I := Kept T) ?_ ?_ h
    · rintro s ⟨hzero, hnone⟩
      refine ⟨hzero, fun u hu x hx => ?_⟩
      rw [hnone u] at hx
      cases hx
    · intro op s s' hs hok hop
      exact (hs.step hL hok hop).1
  exact (hk.step hL hok hstep).2 tcb htcb

end

/-- Two threads: the first runs and is about to switch to the second, which resumes at `0x2000`. -/
def demoMem : Mem :=
  writeWords (fun _ => 0#8) [(0x108, 0x200#32), (0x110, 0x1000#32), (0x114, 0x180#32),
    (0x200, 0x1000#32), (0x1000, 0x4000#32), (0x1088, 0x3000#32), (0x10C0, 0x4000#32),
    (0x1148, 0x2000#32)]

def startIn (m : Mem) (target reg sr : Word) : Traced where
  sched :=
    { cpu :=
        { gpr := fun i => if i = 0#5 then 0#32 else if i = 5#5 then target else reg
          hi := 1#32
          lo := 2#32
          pc := 0x4000#32
          cop0 := Function.update (fun _ => 0#32) copSr sr
          gte := ⟨fun _ => 0#32, fun _ => 0#32⟩
          mem := m }
      reason := .cont
      resumePc := 0#32
      returnTcb := 0#32
      dispatchDepth := 3
      callBail := true }
  away := fun _ => none

def demoStart (sr : Word) : Traced := startIn demoMem 0x10C0#32 0x77#32 sr

def demoOther : Other := fun _ => 0#32

theorem demo_away_isSome : (step demoOther .switch (demoStart 0#32)).isSome = true := by
  decide +kernel

def demoAway : Traced := (step demoOther .switch (demoStart 0#32)).get demo_away_isSome

def demoCpu : Cpu Mem :=
  { demoAway.sched.cpu with gpr := Function.update demoAway.sched.cpu.gpr 5#5 0x1000#32 }

def demoBack : Traced := { demoAway with sched := { demoAway.sched with cpu := demoCpu } }

def demoThreads (u : Word) : Prop := u = 0x1000#32 ∨ u = 0x10C0#32

theorem demo_layout : Layout demoThreads where
  inRam := by
    rintro u (rfl | rfl) <;> exact ⟨by decide, by decide, by decide⟩
  apart := by
    rintro u v (rfl | rfl) (rfl | rfl) hne <;> first | exact absurd rfl hne | decide
  kernel := by
    rintro u (rfl | rfl) <;> decide

theorem demo_back_isSome : (step demoOther .switch demoBack).isSome = true := by
  decide +kernel

/-- The first thread goes on with what it had. -/
theorem switch_preserves_back : (demoBack.away 0x1000#32).map Context.lo = some 2#32 ∧
    Resumed demoOther demoThreads .switch demoBack
      ((step demoOther .switch demoBack).get demo_back_isSome) 0x1000#32 := by
  have hpointer : readWord demoOther demoCpu.mem 0x108#32 = 0x200#32 := by decide +kernel
  have hok : ∀ s : Traced, readWord demoOther s.sched.cpu.mem 0x108#32 = 0x200#32 →
      PointerOk demoOther demoThreads s.sched.cpu.mem := by
    intro s hs
    refine ⟨?_, ?_, ?_, ?_, ?_⟩
    all_goals rw [hs]
    on_goal 5 => rintro u (rfl | rfl)
    all_goals decide
  have hreach : Runs.Reached (step demoOther) (Ok demoOther demoThreads) Start demoBack := by
    have h₀ : Runs.Reached (step demoOther) (Ok demoOther demoThreads) Start (demoStart 0#32) :=
      .start ⟨rfl, fun _ => rfl⟩
    have h₁ : Runs.Reached (step demoOther) (Ok demoOther demoThreads) Start demoAway := by
      refine h₀.next (a := .switch) ⟨.inl ?_, .inr rfl, rfl, hok _ ?_⟩ (Option.some_get _).symm
      · decide +kernel
      · decide +kernel
    refine h₁.next (a := .guest demoCpu demoAway.sched.dispatchDepth demoAway.sched.callBail) ?_ rfl
    exact ⟨by decide +kernel, fun _ _ => SameOn.refl _⟩
  have hlast : Ok demoOther demoThreads .switch demoBack := by
    refine ⟨.inr ?_, .inl ?_, ?_, hok _ hpointer⟩
    · decide +kernel
    · decide +kernel
    · decide +kernel
  have hresumed : resumed demoOther demoBack .switch = some 0x1000#32 := by decide +kernel
  exact ⟨by decide +kernel,
    switch_preserves demo_layout hreach hlast (Option.some_get _).symm hresumed⟩

/-- With the cache isolated nothing is written: the request is granted, and the thread that made it is
resumed from an area it was never saved to. -/
theorem isolated_switch_lost :
    resumed demoOther (demoStart 0x10000#32) .switch = some 0x10C0#32 ∧
      (step demoOther .switch (demoStart 0x10000#32)).map
          (fun t => (currentTcbPtr demoOther t.sched.cpu.mem, t.sched.cpu.pc, t.sched.cpu.gpr 2#5)) =
        some (0x1000#32, 0x3000#32, 0#32) := by
  decide +kernel

/-- The thread `current` runs and `target` can be resumed, at `0x2000`. -/
def twoThreads (base size pointer current target : Word) : Mem :=
  writeWords (fun _ => 0#8) [(areaStart current - 8, 0x4000#32), (areaStart target - 8, 0x4000#32),
    (areaStart target + 128, 0x2000#32), (0x108, pointer), (0x110, base), (0x114, size),
    (physAddr pointer, current)]

/-- The current thread and its `v0`, as a switch from `current` to `target` leaves them -/
def switched (other : Other) (m : Mem) (target reg : Word) : Option (Word × Word) :=
  (step other .switch (startIn m target reg 0#32)).map fun t =>
    (currentTcbPtr other t.sched.cpu.mem, t.sched.cpu.gpr 2#5)

/-- The same behind a switch there, with `0x77` in the registers, and one back, with `0x99` in `v0` -/
def thereAndBack (other : Other) (m : Mem) (current target : Word) : Option (Word × Word) :=
  (step other .switch (startIn m target 0x77#32 0#32)).bind fun t =>
    let c := t.sched.cpu
    let c := { c with gpr := update (update c.gpr 5#5 current) 2#5 0x99#32 }
    (step other .switch { t with sched := { t.sched with cpu := c } }).map fun t =>
      (currentTcbPtr other t.sched.cpu.mem, t.sched.cpu.gpr 2#5)

/-- What the layout excludes goes wrong: control blocks in ROM, two that are mirrors of each other, a save
area over the table words, and the pointer to the current thread in ROM, in a save area or across the
table words. Granted switches then resume a thread with another `v0` than `0x77`, or leave a pointer
that does not name the target. -/
theorem layout_needed :
    thereAndBack (fun _ => 0x4000#32) (twoThreads 0xBFC01000#32 0x180#32 0x200#32 0xBFC01000#32
        0xBFC010C0#32) 0xBFC01000#32 0xBFC010C0#32 = some (0xBFC01000#32, 0x4000#32) ∧
      thereAndBack demoOther (twoThreads 0x1000#32 0x6000C0#32 0x200#32 0x1000#32 0x601000#32)
        0x1000#32 0x601000#32 = some (0x1000#32, 0x99#32) ∧
      switched demoOther (twoThreads 0xF8#32 0x180#32 0x200#32 0xF8#32 0x1B8#32) 0x1B8#32 0#32 =
        some (0#32, 0#32) ∧
      switched (fun _ => 0x1000#32) (twoThreads 0x1000#32 0x180#32 0xBFC00000#32 0x1000#32 0x10C0#32)
        0x10C0#32 0x77#32 = some (0x1000#32, 0x77#32) ∧
      thereAndBack demoOther (twoThreads 0x1000#32 0x180#32 0x1010#32 0x1000#32 0x10C0#32) 0x1000#32
        0x10C0#32 = some (0x1000#32, 0x1000#32) ∧
      switched demoOther (twoThreads 0x10700#32 0x240#32 0x107#32 0x10700#32 0x10880#32) 0x10880#32
        0x77#32 = some (0x108#32, 0x77#32) := by
  decide +kernel

end PsxRecomp.Threads
