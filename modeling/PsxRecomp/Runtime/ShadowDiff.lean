import Mathlib.Data.Fintype.Pi
import PsxRecomp.Runtime.Overlay

/-!
# `Runtime/ShadowDiff.lean` — a shard against the interpreter, from the same state

`run_shadow_diff` (`runtime/src/overlay_loader.c`) runs the interpreter from the state of a dispatch,
then a candidate's native code from the same state, compares the two and goes on with what the
interpreter left. A candidate that agrees is credited (`diff_passes`), and with enough credit it is
trusted. The two passes are parameters, and may do anything to the machine.
-/

set_option autoImplicit false

namespace PsxRecomp.Shadow

open Ram (Byte ramSize)
open Overlay (Candidate diffBudget)

/-! ## 1. The differential -/

/-- The machine. `T` are the fields of `CPUState` beside the registers, `D` the devices. -/
structure World (T D : Type) where
  cpu : Cpu T
  ram : Fin ramSize → Byte
  spad : Fin 1024 → Byte
  /-- `psx_cycle_count` -/
  cycles : Nat
  devices : D
  /-- `g_psx_call_bail` -/
  callBail : Bool
  nativeExec : Bool
  suppressIrq : Bool
  inShadow : Bool
  mmioWatch : Nat
  mmioHits : Nat

/-- What the two passes are made of: the interpreter, the native function and the dispatcher. -/
structure Passes (T D : Type) where
  dirtyRamDispatch : Word → Word → World T D → World T D
  fn : World T D → World T D
  psxDispatchCall : Word → Word → World T D → World T D

section
variable {T D : Type} (P : Passes T D)

/-- A native function leaves with the next target in `pc`; the dispatcher follows it to the return of
the function. -/
def chase (stopRa : Word) : Nat → World T D → World T D
  | 0, w => w
  | guard + 1, w =>
    if w.cpu.pc ≠ 0#32 ∧ w.callBail = false then
      if w.cpu.pc &&& 0x1FFFFFFF#32 = stopRa &&& 0x1FFFFFFF#32 then w
      else
        chase stopRa guard
          (P.psxDispatchCall w.cpu.pc stopRa { w with cpu := { w.cpu with pc := 0#32 } })
    else w

/-- Nested overlay code is interpreted, and no interrupt is taken. -/
def enter (w : World T D) : World T D :=
  { w with inShadow := true, suppressIrq := true, nativeExec := false }

/-- The interpreted pass, with the device detector armed. -/
def interpPass (addr : Word) (w : World T D) : World T D :=
  let w := enter w
  let w' := P.dirtyRamDispatch addr (w.cpu.gpr 31#5) { w with mmioWatch := w.mmioWatch + 1 }
  { w' with mmioWatch := w'.mmioWatch - 1 }

/-- The native pass, from the registers and memory of before and all else as the interpreted pass left
it. -/
def nativePass (addr : Word) (w : World T D) : World T D :=
  let i := interpPass P addr w
  chase P (w.cpu.gpr 31#5) 8192 (P.fn { i with cpu := w.cpu, ram := w.ram, spad := w.spad })

def clean (n i : World T D) : Bool :=
  decide (∀ r : Fin 32, r ≠ 0 → n.cpu.gpr (BitVec.ofFin r) = i.cpu.gpr (BitVec.ofFin r)) &&
    decide (n.cpu.hi = i.cpu.hi) && decide (n.cpu.lo = i.cpu.lo) && decide (n.ram = i.ram)

/-- The switches go back to what they were, and no bail gets out. -/
def restoreSwitches (before w : World T D) : World T D :=
  { w with
    callBail := false
    nativeExec := before.nativeExec
    suppressIrq := before.suppressIrq
    inShadow := false }

def runShadowDiff (c : Candidate) (addr : Word) (w : World T D) : Candidate × World T D :=
  let i := interpPass P addr w
  if i.mmioHits ≠ w.mmioHits then ({ c with deviceTouch := true }, restoreSwitches w i)
  else
    let n := nativePass P addr w
    let c' :=
      if clean n i then
        if c.diffPasses < diffBudget then { c with diffPasses := c.diffPasses + 1 } else c
      else { c with diffPasses := 0 }
    (c', restoreSwitches w { n with cpu := i.cpu, ram := i.ram, spad := i.spad })

/-! ## 2. Transparency and credit -/

/-- The live state is the one of `w'`. -/
structure SameLive (w w' : World T D) : Prop where
  cpu : w.cpu = w'.cpu
  ram : w.ram = w'.ram
  spad : w.spad = w'.spad
  cycles : w.cycles = w'.cycles
  devices : w.devices = w'.devices

structure Agrees (n i : World T D) : Prop where
  gpr : ∀ r : Reg, r ≠ 0#5 → n.cpu.gpr r = i.cpu.gpr r
  hi : n.cpu.hi = i.cpu.hi
  lo : n.cpu.lo = i.cpu.lo
  cop0 : n.cpu.cop0 = i.cpu.cop0
  gte : n.cpu.gte = i.cpu.gte
  ram : n.ram = i.ram
  spad : n.spad = i.spad

/-- If the interpreted pass touches no device, the differential leaves what that pass alone leaves, and
credits the candidate only if the native pass agrees with it. -/
def ShadowOk (c : Candidate) (addr : Word) (w : World T D) : Prop :=
  (interpPass P addr w).mmioHits = w.mmioHits →
    SameLive (runShadowDiff P c addr w).2 (interpPass P addr w) ∧
      ((runShadowDiff P c addr w).1.diffPasses = c.diffPasses + 1 →
        Agrees (nativePass P addr w) (interpPass P addr w))

/-- The native pass charges no cycle and leaves the devices alone. -/
def Untimed (addr : Word) (w : World T D) : Prop :=
  (nativePass P addr w).cycles = (interpPass P addr w).cycles ∧
    (nativePass P addr w).devices = (interpPass P addr w).devices

/-- The passes leave the same COP0 registers, GTE registers and scratchpad. -/
structure SameUncompared (n i : World T D) : Prop where
  cop0 : n.cpu.cop0 = i.cpu.cop0
  gte : n.cpu.gte = i.cpu.gte
  spad : n.spad = i.spad

variable {P} {c : Candidate} {addr : Word} {w n i : World T D}

theorem clean_iff : clean n i = true ↔
    (∀ r : Reg, r ≠ 0#5 → n.cpu.gpr r = i.cpu.gpr r) ∧ n.cpu.hi = i.cpu.hi ∧ n.cpu.lo = i.cpu.lo ∧
      n.ram = i.ram := by
  have hgpr : (∀ r : Fin 32, r ≠ 0 → n.cpu.gpr (BitVec.ofFin r) = i.cpu.gpr (BitVec.ofFin r)) ↔
      ∀ r : Reg, r ≠ 0#5 → n.cpu.gpr r = i.cpu.gpr r := by
    constructor
    · intro h r hr
      refine h r.toFin fun h0 => hr ?_
      exact BitVec.toFin_inj.mp h0
    · intro h r hr
      exact h (BitVec.ofFin r) fun h0 => hr (congrArg BitVec.toFin h0)
  simp [clean, Bool.and_eq_true, decide_eq_true_eq, hgpr, and_assoc]

theorem agrees_iff : Agrees n i ↔ clean n i = true ∧ SameUncompared n i := by
  rw [clean_iff]
  constructor
  · rintro ⟨hgpr, hhi, hlo, hcop0, hgte, hram, hspad⟩
    exact ⟨⟨hgpr, hhi, hlo, hram⟩, hcop0, hgte, hspad⟩
  · rintro ⟨⟨hgpr, hhi, hlo, hram⟩, hcop0, hgte, hspad⟩
    exact ⟨hgpr, hhi, hlo, hcop0, hgte, hram, hspad⟩

theorem runShadowDiff_of_noDevice (h : (interpPass P addr w).mmioHits = w.mmioHits) :
    runShadowDiff P c addr w =
      let i := interpPass P addr w
      let n := nativePass P addr w
      (if clean n i then
          if c.diffPasses < diffBudget then { c with diffPasses := c.diffPasses + 1 } else c
        else { c with diffPasses := 0 },
        restoreSwitches w { n with cpu := i.cpu, ram := i.ram, spad := i.spad }) := by
  unfold runShadowDiff
  simp [ne_eq, h, not_true_eq_false]

theorem credited_iff (h : (interpPass P addr w).mmioHits = w.mmioHits) :
    (runShadowDiff P c addr w).1.diffPasses = c.diffPasses + 1 ↔
      c.diffPasses < diffBudget ∧ clean (nativePass P addr w) (interpPass P addr w) = true := by
  rw [runShadowDiff_of_noDevice h]
  simp only
  split_ifs with hclean hbudget
  · simp [hclean, hbudget]
  · simp [hbudget]
  · simp [hclean]

theorem sameLive_iff (h : (interpPass P addr w).mmioHits = w.mmioHits) :
    SameLive (runShadowDiff P c addr w).2 (interpPass P addr w) ↔ Untimed P addr w := by
  rw [runShadowDiff_of_noDevice h]
  constructor
  · exact fun hs => ⟨hs.cycles, hs.devices⟩
  · exact fun hu => ⟨rfl, rfl, rfl, hu.1, hu.2⟩

open Classical in
theorem diffPasses_le (h : ShadowOk P c addr w) :
    (runShadowDiff P c addr w).1.diffPasses ≤
      c.diffPasses + if Agrees (nativePass P addr w) (interpPass P addr w) then 1 else 0 := by
  by_cases hdev : (interpPass P addr w).mmioHits = w.mmioHits
  · have hcredit := credited_iff (c := c) hdev
    have hagree := (h hdev).2
    rw [runShadowDiff_of_noDevice hdev] at hcredit hagree ⊢
    simp only at hcredit hagree ⊢
    split_ifs at hcredit hagree ⊢ with hclean hbudget
    all_goals simp_all
  · rw [runShadowDiff]
    simp [hdev]

open Classical in
/-- **When the differential is transparent and its credit sound.** It puts back `CPUState`, RAM and the
scratchpad, and compares `gpr 1..31`, `hi`, `lo` and RAM; so just when the native pass charges no cycle
and leaves the devices alone, and when nothing else differs. Where it is so at every call, the credit
after a run of calls is at most that of the calls whose two passes agree. -/
theorem shadow_ok_iff (P : Passes T D) (addr : Word) :
    (∀ (c : Candidate) (w : World T D), ShadowOk P c addr w ↔
      ((interpPass P addr w).mmioHits = w.mmioHits →
        Untimed P addr w ∧
          (c.diffPasses < diffBudget → clean (nativePass P addr w) (interpPass P addr w) = true →
            SameUncompared (nativePass P addr w) (interpPass P addr w)))) ∧
      ∀ (c : Candidate) (ws : List (World T D)), (∀ w ∈ ws, ∀ c, ShadowOk P c addr w) →
        (ws.foldl (fun c w => (runShadowDiff P c addr w).1) c).diffPasses ≤
          c.diffPasses + ws.countP fun w => Agrees (nativePass P addr w) (interpPass P addr w) := by
  refine ⟨fun c w => forall_congr' fun h => ?_, fun c ws h => ?_⟩
  · rw [sameLive_iff h, credited_iff h, agrees_iff]
    tauto
  · induction ws generalizing c with
    | nil => simp
    | cons w ws ih =>
      have hstep := diffPasses_le (h w List.mem_cons_self c)
      have hrest := ih (runShadowDiff P c addr w).1 fun w' hw' => h w' (List.mem_cons_of_mem _ hw')
      rw [List.foldl_cons, List.countP_cons]
      simp only [decide_eq_true_eq]
      omega

theorem chase_of_returned (stopRa : Word) (guard : Nat) (h : w.cpu.pc = 0#32) :
    chase P stopRa guard w = w := by
  cases guard with
  | zero => rfl
  | succ guard => simp [chase, h]

end

/-- A shard that charges a cycle and writes the scratchpad, where the interpreter does nothing. -/
def oddPasses : Passes Unit Unit where
  dirtyRamDispatch _ _ w := w
  fn w := { w with cycles := w.cycles + 1, spad := fun _ => 1#8 }
  psxDispatchCall _ _ w := w

def zeroWorld : World Unit Unit where
  cpu := ⟨fun _ => 0#32, 0#32, 0#32, 0#32, fun _ => 0#32, ⟨fun _ => 0#32, fun _ => 0#32⟩, ()⟩
  ram := fun _ => 0#8
  spad := fun _ => 0#8
  cycles := 0
  devices := ()
  callBail := false
  nativeExec := true
  suppressIrq := false
  inShadow := false
  mmioWatch := 0
  mmioHits := 0

def newShard : Candidate where
  addr := 0x10000
  ranges := []
  crcCode := 0#32
  valGen := 0#32
  state := .valid
  origin := .shard

/-- Its cycle stays charged, and it is credited. -/
theorem shadow_credits_unseen_divergence :
    let i := interpPass oddPasses 0x80010000#32 zeroWorld
    let n := nativePass oddPasses 0x80010000#32 zeroWorld
    let r := runShadowDiff oddPasses newShard 0x80010000#32 zeroWorld
    i.mmioHits = zeroWorld.mmioHits ∧ i.cycles = 0 ∧ r.2.cycles = 1 ∧
      r.1.diffPasses = newShard.diffPasses + 1 ∧ n.spad ≠ i.spad := by
  intro i n r
  have hn : n = { i with cpu := zeroWorld.cpu, ram := zeroWorld.ram, spad := fun _ => 1#8, cycles := 1 } :=
    chase_of_returned _ _ rfl
  have hclean : clean n i = true := by
    rw [clean_iff, hn]
    exact ⟨fun _ _ => rfl, rfl, rfl, rfl⟩
  refine ⟨rfl, rfl, ?_, (credited_iff rfl).mpr ⟨by decide, hclean⟩, ?_⟩
  · have hr : r.2.cycles = n.cycles := by
      rfl
    rw [hr, hn]
  · rw [hn]
    intro h
    exact absurd (congrFun h 0) (by decide)

end PsxRecomp.Shadow
