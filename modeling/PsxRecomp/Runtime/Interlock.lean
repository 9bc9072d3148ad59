import Mathlib.Algebra.BigOperators.Group.Finset.Basic
import Mathlib.Algebra.Order.BigOperators.Group.Finset
import PsxRecomp.Runtime.Icache
import PsxRecomp.Runtime.Ram

/-!
# `Runtime/Interlock.lean` — the load-delay interlock

Every instruction charges one cycle (`psx_cyc_base`), unless a load before it still has something to
give back: a load charges its wait at once, and the instructions behind it run in that time until one
needs the value. What is to be given back waits in `ld_absorb` for one instruction, is committed to the
slot of the register (`psx_cyc_lds`), and is taken from the slot that `read_absorb_which` names, cycle
by cycle. The slots can be overwritten, cleared and redirected to slot 0, and `read_absorb_which` is the
union of the numbers of all registers loaded since it was cleared.

Every function leaves in `log` the cycles it charges and what else is to be counted. `PSX_LOAD_DELAY=0`
takes loads out of the interlock; such a load is not counted as an instruction here.
`g_ls_replay_active`, under which a lockstep replay charges and fetches nothing, is left out.
-/

set_option autoImplicit false

open Function

namespace PsxRecomp.Interlock

open BitVec Finset

/-! ## 1. The interlock -/

inductive Cause
  | base
  | load
  | stall
  | fetch
deriving DecidableEq

inductive Effect
  | charge (cause : Cause) (cycles : Nat)
  /-- an instruction goes through the interlock -/
  | retire
  /-- a give-back is put into `ld_absorb` -/
  | arm
  /-- the last one is put into a slot of a register -/
  | commit (slot : Nat)

structure State where
  /-- slot 32 is written, and never read -/
  readAbsorb : Nat → BitVec 8
  readAbsorbWhich : BitVec 8
  readFudge : BitVec 8
  ldWhich : BitVec 8
  ldAbsorb : Word
  muldivTsDone : BitVec 64
  gteTsDone : BitVec 64
  cycleCount : BitVec 64
  tags : Icache.Tags
  /-- the last effect first -/
  log : List Effect

def reset : State where
  readAbsorb _ := 0#8
  readAbsorbWhich := 0#8
  readFudge := 0#8
  ldWhich := 0x20#8
  ldAbsorb := 0#32
  muldivTsDone := 0#64
  gteTsDone := 0#64
  cycleCount := 0#64
  tags := Icache.reset
  log := []

/-- `PSX_MMIO_WAIT`, `PSX_POLL_PROOF`, `PSX_LOAD_DELAY` and the switches of the instruction cache -/
structure Settings where
  mmioWait : Bool := true
  pollProof : Nat := 0
  loadDelay : Bool := true
  icache : Icache.Gate := {}

namespace State
variable (s : State)

def note (e : Effect) : State := { s with log := e :: s.log }

/-- `psx_advance_cycles` -/
def advanceCycles (cause : Cause) (cycles : Word) : State :=
  { s with
    cycleCount := s.cycleCount + cycles.setWidth 64
    log := .charge cause cycles.toNat :: s.log }

def setSlot (i : Nat) (v : BitVec 8) : State := { s with readAbsorb := Function.update s.readAbsorb i v }

def clearGiveBack : State :=
  { s.setSlot s.readAbsorbWhich.toNat 0#8 with readAbsorbWhich := 0#8 }

def arm (absorb : Word) (which : BitVec 8) : State :=
  { s.note .arm with ldAbsorb := absorb, ldWhich := which }

/-- `psx_cyc_base` -/
def cycBase : State :=
  let w := s.readAbsorbWhich.toNat
  if s.readAbsorb w ≠ 0#8 then (s.setSlot w (s.readAbsorb w - 1#8)).note .retire
  else (s.advanceCycles .base 1#32).note .retire

/-- `psx_cyc_deps` -/
def cycDeps (regMask : Word) : State :=
  { s with readAbsorb := fun n => if (regMask &&& 0xFFFFFFFE#32).getLsbD n then 0#8 else s.readAbsorb n }

/-- `psx_cyc_lds` -/
def cycLds : State :=
  let lw := s.ldWhich
  let s' := if lw.toNat < 32 then s.note (.commit lw.toNat) else s
  { s'.setSlot lw.toNat (s.ldAbsorb.setWidth 8) with
    readFudge := lw
    readAbsorbWhich := s.readAbsorbWhich ||| (lw &&& 0x1F#8)
    ldWhich := 0x20#8 }

/-- `psx_cyc_step` -/
def cycStep (regMask : Word) : State := ((s.cycBase).cycDeps regMask).cycLds

end State

def between (lo hi phys : Nat) : Bool := lo ≤ phys && phys ≤ hi

/-- `psx_mmio_read_wait` -/
def mmioReadWait (cfg : Settings) (phys size : Nat) : Nat :=
  if phys < 0x00800000 then 3
  else if between 0x1FC00000 0x1FC7FFFF phys then 0
  else if between 0x1F000000 0x1F7FFFFF phys then 0
  else if between 0x1F801000 0x1F802FFF phys then
    if !cfg.mmioWait then 0
    else if between 0x1F801C00 0x1F801FFF phys then if size = 4 then 36 else 16
    else if between 0x1F801800 0x1F80180F phys then 6 * size
    else if between 0x1F801810 0x1F801817 phys then 1
    else if between 0x1F801820 0x1F801827 phys then 1
    else if between 0x1F801000 0x1F801023 phys then 1
    else if between 0x1F801040 0x1F80104F phys then 1
    else if between 0x1F801050 0x1F80105F phys then 1
    else if between 0x1F801070 0x1F801077 phys then 1
    else if between 0x1F801080 0x1F8010FF phys then 1
    else if between 0x1F801100 0x1F80113F phys then 1
    else 0
  else 0

namespace State
variable (cfg : Settings) (s : State)

/-- `psx_cyc_readmem` -/
def cycReadmem (phys size complCost : Nat) (armRt : BitVec 8) : State :=
  let s := s.clearGiveBack
  if between 0x1F800000 0x1F8003FF phys then s.arm 0#32 armRt
  else
    let s := s.advanceCycles .load (((s.readFudge >>> 4) &&& 2#8).setWidth 32)
    let cost := BitVec.ofNat 32 (mmioReadWait cfg phys size + complCost)
    let s := (s.advanceCycles .load cost).arm cost armRt
    if phys < 0x00800000 ∧ 0 < cfg.pollProof then s.advanceCycles .load (BitVec.ofNat 32 cfg.pollProof)
    else s

/-- `psx_cyc_load_timing` -/
def cycLoadTiming (addr : Word) (size : Nat) (rt : Fin 32) (regMask : Word) : State :=
  if !cfg.loadDelay then s
  else
    let s := s.cycBase.cycDeps regMask
    let rt := BitVec.ofNat 8 rt.val
    -- a pending load to the same register is cancelled
    let s := if s.ldWhich = rt then { s with ldWhich := 0#8 } else s
    s.cycLds.cycReadmem cfg (addr &&& 0x1FFFFFFF#32).toNat size 2 rt

/-- `psx_cyc_lwc2_read` -/
def cycLwc2Read (addr : Word) : State := s.cycReadmem cfg (addr &&& 0x1FFFFFFF#32).toNat 4 1 0x20#8

def spend (stall : Word) : State :=
  let w := s.readAbsorbWhich.toNat
  let give := (s.readAbsorb w).setWidth 32
  s.setSlot w (if stall < give then (give - stall).setWidth 8 else 0#8)

/-- `psx_muldiv_stall` -/
def muldivStall : State :=
  if s.cycleCount < s.muldivTsDone then
    if s.muldivTsDone = s.cycleCount + 1#64 then { s with muldivTsDone := s.muldivTsDone - 1#64 }
    else
      let stall := (s.muldivTsDone - s.cycleCount).setWidth 32
      (s.spend stall).advanceCycles .stall stall
  else s

/-- `psx_muldiv_set` -/
def muldivSet (latency : Word) : State := { s with muldivTsDone := s.cycleCount + latency.setWidth 64 }

/-- `psx_gte_read` -/
def gteRead (rt : Fin 32) : State :=
  if s.cycleCount < s.gteTsDone then
    let stall := (s.gteTsDone - s.cycleCount).setWidth 32
    (s.advanceCycles .stall stall).arm stall (BitVec.ofNat 8 rt.val)
  else s.arm 0#32 (BitVec.ofNat 8 rt.val)

/-- `psx_gte_stall` -/
def gteStall : State :=
  if s.cycleCount < s.gteTsDone then s.advanceCycles .stall ((s.gteTsDone - s.cycleCount).setWidth 32) else s

/-- `psx_gte_set` -/
def gteSet (latency : Word) : State :=
  let s := s.gteStall
  { s with gteTsDone := s.cycleCount + latency.setWidth 64 }

/-- `psx_icache_fetch` -/
def icacheFetch (addr : Word) : State :=
  if !cfg.icache.on then s
  else if Icache.Valid addr s.tags then s
  else if Icache.Uncached addr then s.clearGiveBack.advanceCycles .fetch 4#32
  else
    let r := Icache.refill addr s.tags
    { s.clearGiveBack with tags := r.1 }.advanceCycles .fetch (BitVec.ofNat 32 r.2)

end State

/-! ## 2. Events -/

inductive Event
  | step (regMask : Word)
  | load (w : Ram.Width) (addr : Word) (rt : Fin 32) (regMask : Word)
  | lwc2 (addr : Word)
  | gteRead (rt : Fin 32)
  /-- `MFC0`, which gives nothing back -/
  | mfc0 (rt : Fin 32)
  | gteStall
  | gteSet (latency : Word)
  | muldivStall
  | muldivSet (latency : Word)
  /-- whatever the deadlines are -/
  | deadlines (muldiv gte : BitVec 64)
  | fetch (addr : Word)

def Event.apply (cfg : Settings) (s : State) : Event → State
  | .step regMask => s.cycStep regMask
  | .load w addr rt regMask => s.cycLoadTiming cfg addr w.size rt regMask
  | .lwc2 addr => s.cycLwc2Read cfg addr
  | .gteRead rt => s.gteRead rt
  | .mfc0 rt => s.arm 0#32 (BitVec.ofNat 8 rt.val)
  | .gteStall => s.gteStall
  | .gteSet latency => s.gteSet latency
  | .muldivStall => s.muldivStall
  | .muldivSet latency => s.muldivSet latency
  | .deadlines muldiv gte => { s with muldivTsDone := muldiv, gteTsDone := gte }
  | .fetch addr => s.icacheFetch cfg addr

def run (cfg : Settings) (events : List Event) (s : State) : State := events.foldl (Event.apply cfg) s

/-! ## 3. The accounts -/

def chargeOf (causes : Cause → Bool) : Effect → Nat
  | .charge cause cycles => if causes cause then cycles else 0
  | _ => 0

def inSlots (readAbsorb : Nat → BitVec 8) : Nat := ∑ i ∈ Finset.range 32, (readAbsorb i).toNat

namespace State
variable (s : State)

def charged : Nat := (s.log.map (chargeOf fun _ => true)).sum

def chargedLoads : Nat := (s.log.map (chargeOf fun c => c = .load ∨ c = .stall)).sum

def retired : Nat := s.log.countP fun | .retire => true | _ => false

/-- What waits to be committed to the slot of a register -/
def waiting : Nat := if s.ldWhich.toNat < 32 then s.ldAbsorb.toNat else 0

def outstanding : Nat := inSlots s.readAbsorb + s.waiting

end State

def arms (log : List Effect) : Nat := log.countP fun | .arm => true | _ => false

/-- For each commit the number of the give-back it commits, the last one first -/
def commits : List Effect → List Nat
  | [] => []
  | .commit _ :: log => arms log :: commits log
  | _ :: log => commits log

/-- The accounts after some operations: what was retired and what may still be given back has been charged,
and what may be given back has been charged by loads and stalls. -/
structure Pays (s s' : State) : Prop where
  instructions : s'.retired + s'.outstanding + s.charged ≤ s'.charged + s.retired + s.outstanding
  loads : s'.outstanding + s.chargedLoads ≤ s'.chargedLoads + s.outstanding

/-- The indices are in range, and the give-back that waits has not been committed yet. -/
structure Ok (s : State) : Prop where
  which : s.readAbsorbWhich.toNat < 32
  ldWhich : s.ldWhich.toNat ≤ 32
  once : (commits s.log).Nodup
  past : ∀ k ∈ commits s.log, k ≤ arms s.log
  pending : s.ldWhich.toNat < 32 → arms s.log ∉ commits s.log

def Fair (s s' : State) : Prop := Ok s → Ok s' ∧ Pays s s'

section
variable {s t u : State}

theorem Fair.refl (s : State) : Fair s s := fun h => ⟨h, by omega, by omega⟩

theorem Fair.trans (h : Fair s t) (h' : Fair t u) : Fair s u := fun hs => by
  obtain ⟨ht, hinstr, hloads⟩ := h hs
  obtain ⟨hu, hinstr', hloads'⟩ := h' ht
  exact ⟨hu, by omega, by omega⟩

theorem Fair.of_le (hlog : t.log = s.log) (hwhich : Ok s → t.readAbsorbWhich.toNat < 32)
    (hld : t.ldWhich.toNat ≤ 32 ∨ t.ldWhich = s.ldWhich)
    (hpending : t.ldWhich.toNat < 32 → s.ldWhich.toNat < 32) (hout : Ok s → t.outstanding ≤ s.outstanding) :
    Fair s t := fun hs => by
  have hle := hout hs
  have hcharged : t.charged = s.charged := by rw [State.charged, hlog]; rfl
  have hloads : t.chargedLoads = s.chargedLoads := by rw [State.chargedLoads, hlog]; rfl
  have hretired : t.retired = s.retired := by rw [State.retired, hlog]; rfl
  refine ⟨⟨hwhich hs, ?_, hlog ▸ hs.once, hlog ▸ hs.past, fun h => hlog ▸ hs.pending (hpending h)⟩, by omega, by omega⟩
  rcases hld with hld | hld
  · exact hld
  · exact hld ▸ hs.ldWhich

theorem Ok.congr (h : Ok s) (hw : t.readAbsorbWhich = s.readAbsorbWhich) (hl : t.ldWhich = s.ldWhich)
    (hc : commits t.log = commits s.log) (ha : arms t.log = arms s.log) : Ok t where
  which := hw ▸ h.which
  ldWhich := hl ▸ h.ldWhich
  once := hc ▸ h.once
  past := by
    rw [hc, ha]
    exact h.past
  pending := by
    rw [hl, hc, ha]
    exact h.pending

end

section
variable {f : Nat → BitVec 8} {i : Nat}

theorem inSlots_update (hi : i < 32) (v : BitVec 8) :
    inSlots (Function.update f i v) + (f i).toNat = inSlots f + v.toNat := by
  have hmem : i ∈ range 32 := mem_range.mpr hi
  have hother : ∑ j ∈ (range 32).erase i, (update f i v j).toNat =
      ∑ j ∈ (range 32).erase i, (f j).toNat :=
    sum_congr rfl fun j hj => by rw [update_of_ne (ne_of_mem_erase hj)]
  unfold inSlots
  rw [← add_sum_erase _ _ hmem, ← add_sum_erase _ (fun j => (f j).toNat) hmem, hother,
    update_self]
  omega

theorem inSlots_update_of_le (hi : 32 ≤ i) (v : BitVec 8) : inSlots (Function.update f i v) = inSlots f :=
  sum_congr rfl fun j hj => by
    have := mem_range.mp hj
    rw [update_of_ne (by omega)]

theorem inSlots_update_le (hi : i < 32) {v : BitVec 8} (hv : v.toNat ≤ (f i).toNat) :
    inSlots (Function.update f i v) + ((f i).toNat - v.toNat) = inSlots f := by
  have := inSlots_update (f := f) hi v
  omega

end

/-! ## 4. Each operation pays -/

section
variable (s : State)

theorem accounts_advance (cause : Cause) (cycles : Word) :
    (s.advanceCycles cause cycles).charged = cycles.toNat + s.charged ∧
      s.chargedLoads ≤ (s.advanceCycles cause cycles).chargedLoads ∧
      (s.advanceCycles cause cycles).retired = s.retired := by
  simp [State.charged, State.chargedLoads, State.retired, State.advanceCycles, chargeOf]

theorem fair_advance (cause : Cause) (cycles : Word) : Fair s (s.advanceCycles cause cycles) := fun hs => by
  obtain ⟨hcharged, hloads, hretired⟩ := accounts_advance s cause cycles
  have hout : (s.advanceCycles cause cycles).outstanding = s.outstanding := rfl
  exact ⟨hs.congr rfl rfl rfl (by simp [arms, State.advanceCycles]), by omega, by omega⟩

theorem fair_clear : Fair s s.clearGiveBack := by
  refine .of_le rfl (fun _ => Nat.zero_lt_succ 31) (.inr rfl) id fun hs => ?_
  have := inSlots_update_le (f := s.readAbsorb) hs.which (v := 0#8) (Nat.zero_le _)
  exact Nat.add_le_add_right (by show inSlots (update _ _ _) ≤ _; omega) _

theorem fair_deps (regMask : Word) : Fair s (s.cycDeps regMask) := by
  refine .of_le rfl Ok.which (.inr rfl) id fun _ => Nat.add_le_add_right (sum_le_sum fun i _ => ?_) _
  show (if _ then 0#8 else s.readAbsorb i).toNat ≤ _
  split_ifs
  · exact Nat.zero_le _
  · exact le_rfl

theorem retired_note : (s.note .retire).retired = s.retired + 1 := by simp [State.retired, State.note]

theorem charged_note {e : Effect} (h : ∀ causes, chargeOf causes e = 0) :
    (s.note e).charged = s.charged ∧ (s.note e).chargedLoads = s.chargedLoads := by
  simp [State.charged, State.chargedLoads, State.note, h]

theorem fair_base : Fair s s.cycBase := fun hs => by
  unfold State.cycBase
  dsimp only
  have hok : ∀ t : State, Ok t → Ok (t.note .retire) := fun t ht =>
    ht.congr rfl rfl rfl (by simp [arms, State.note])
  split_ifs with hgive
  · set w := s.readAbsorbWhich.toNat with hw
    have hpos : 1 ≤ (s.readAbsorb w).toNat := by
      rw [Nat.one_le_iff_ne_zero]
      exact fun h0 => hgive (eq_of_toNat_eq h0)
    have hminus : (s.readAbsorb w - 1#8).toNat = (s.readAbsorb w).toNat - 1 :=
      toNat_sub_of_le hpos
    have hw32 : w < 32 := hs.which
    have hslots := inSlots_update_le (f := s.readAbsorb) hw32 (v := s.readAbsorb w - 1#8) (by omega)
    set t := s.setSlot w (s.readAbsorb w - 1#8) with ht
    obtain ⟨hcharged, hloads⟩ := charged_note t (e := .retire) fun _ => rfl
    have hretired := retired_note t
    have hbefore : t.charged = s.charged ∧ t.chargedLoads = s.chargedLoads ∧ t.retired = s.retired :=
      ⟨rfl, rfl, rfl⟩
    have hout : (t.note .retire).outstanding + 1 = s.outstanding := by
      show inSlots (update s.readAbsorb w (s.readAbsorb w - 1#8)) + s.waiting + 1 = _
      rw [State.outstanding]
      omega
    exact ⟨hok t (hs.congr rfl rfl rfl rfl), by omega, by omega⟩
  · obtain ⟨hbefore, hloads', hsame⟩ := accounts_advance s .base 1#32
    have ht := (fair_advance s .base 1#32 hs).1
    set t := s.advanceCycles .base 1#32
    obtain ⟨hcharged, hloads⟩ := charged_note t (e := .retire) fun _ => rfl
    have hretired := retired_note t
    have hout : (t.note .retire).outstanding = s.outstanding := rfl
    exact ⟨hok t ht, by simp at hbefore; omega, by omega⟩

theorem which_or_lt {a : BitVec 8} (h : a.toNat < 32) (b : BitVec 8) : (a ||| (b &&& 0x1F#8)).toNat < 32 := by
  exact Nat.or_lt_two_pow (n := 5) h (Nat.and_lt_two_pow _ (by decide))

theorem fair_lds : Fair s s.cycLds := fun hs => by
  have hwhich : s.cycLds.readAbsorbWhich.toNat < 32 := which_or_lt hs.which _
  have hwaiting : s.cycLds.waiting = 0 := rfl
  have hread : s.cycLds.readAbsorb = Function.update s.readAbsorb s.ldWhich.toNat (s.ldAbsorb.setWidth 8) := by
    rw [State.cycLds]
    split_ifs <;> rfl
  by_cases hlive : s.ldWhich.toNat < 32
  · have hslots := inSlots_update (f := s.readAbsorb) hlive (s.ldAbsorb.setWidth 8)
    have hle : (s.ldAbsorb.setWidth 8).toNat ≤ s.waiting := by
      rw [State.waiting, if_pos hlive, toNat_setWidth]
      exact Nat.mod_le _ _
    have hlog : s.cycLds.log = .commit s.ldWhich.toNat :: s.log := by
      rw [State.cycLds, if_pos hlive]
      rfl
    have hcharged : s.cycLds.charged = s.charged ∧ s.cycLds.chargedLoads = s.chargedLoads := by
      simp [State.charged, State.chargedLoads, hlog, chargeOf]
    have hretired : s.cycLds.retired = s.retired := by simp [State.retired, hlog]
    have hout : s.cycLds.outstanding ≤ s.outstanding := by
      rw [State.outstanding, State.outstanding, hread, hwaiting]
      omega
    have harms : arms s.cycLds.log = arms s.log := by simp [arms, hlog]
    refine ⟨⟨hwhich, le_rfl, ?_, ?_, fun h => absurd h (lt_irrefl 32)⟩, by omega, by omega⟩
    · rw [hlog, commits]
      exact List.nodup_cons.mpr ⟨hs.pending hlive, hs.once⟩
    · rw [harms, hlog, commits]
      exact List.forall_mem_cons.mpr ⟨le_rfl, hs.past⟩
  · -- nothing waits, and slot 32 is nobody's
    have hlog : s.cycLds.log = s.log := by
      rw [State.cycLds, if_neg hlive]
      rfl
    refine Fair.of_le hlog (fun _ => hwhich) (.inl le_rfl) (fun h => absurd h (lt_irrefl 32)) (fun _ => ?_) hs
    rw [State.outstanding, State.outstanding, hread, hwaiting, inSlots_update_of_le (by omega)]
    omega

theorem fair_step (regMask : Word) : Fair s (s.cycStep regMask) :=
  ((fair_base s).trans (fair_deps _ regMask)).trans (fair_lds _)

theorem fair_cancel (rt : Fin 32) :
    Fair s (if s.ldWhich = BitVec.ofNat 8 rt.val then { s with ldWhich := 0#8 } else s) := by
  split_ifs with heq
  · have hlive : s.ldWhich.toNat < 32 := by
      rw [heq, toNat_ofNat]
      omega
    refine .of_le rfl Ok.which (.inl (Nat.zero_le _)) (fun _ => hlive) fun _ => ?_
    show _ + s.ldAbsorb.toNat ≤ _ + s.waiting
    rw [State.waiting, if_pos hlive]
  · exact .refl s

variable {s}

theorem ok_arm (hs : Ok s) (absorb : Word) {which : BitVec 8} (hw : which.toNat ≤ 32) :
    Ok (s.arm absorb which) := by
  have harms : arms (s.arm absorb which).log = arms s.log + 1 := by simp [arms, State.arm, State.note]
  refine ⟨hs.which, hw, hs.once, fun k hk => ?_, fun _ hmem => ?_⟩
  · exact (hs.past k hk).trans (by omega)
  · have := hs.past _ hmem
    omega

theorem outstanding_arm (s : State) (absorb : Word) (which : BitVec 8) :
    (s.arm absorb which).outstanding ≤ s.outstanding + absorb.toNat := by
  have : (s.arm absorb which).waiting ≤ absorb.toNat := by
    unfold State.waiting
    split_ifs
    · exact le_rfl
    · exact Nat.zero_le _
  show inSlots s.readAbsorb + _ ≤ inSlots s.readAbsorb + s.waiting + _
  omega

variable (s)

theorem accounts_arm (absorb : Word) (which : BitVec 8) : (s.arm absorb which).charged = s.charged ∧
    (s.arm absorb which).chargedLoads = s.chargedLoads ∧ (s.arm absorb which).retired = s.retired := by
  simp [State.charged, State.chargedLoads, State.retired, State.arm, State.note, chargeOf]

theorem fair_arm_zero {which : BitVec 8} (hw : which.toNat ≤ 32) : Fair s (s.arm 0#32 which) := fun hs => by
  obtain ⟨hcharged, hloads, hretired⟩ := accounts_arm s 0#32 which
  have hout := outstanding_arm s 0#32 which
  rw [toNat_zero] at hout
  exact ⟨ok_arm hs _ hw, by omega, by omega⟩

theorem fair_arm {cause : Cause} (hc : cause = .load ∨ cause = .stall) (cycles : Word) {which : BitVec 8}
    (hw : which.toNat ≤ 32) : Fair s ((s.advanceCycles cause cycles).arm cycles which) := fun hs => by
  obtain ⟨hok, -⟩ := fair_advance s cause cycles hs
  obtain ⟨hcharged, hloads, hretired⟩ := accounts_arm (s.advanceCycles cause cycles) cycles which
  have hout : _ ≤ s.outstanding + cycles.toNat := outstanding_arm (s.advanceCycles cause cycles) cycles which
  obtain ⟨hbefore, -, hsame⟩ := accounts_advance s cause cycles
  have hbefore' : (s.advanceCycles cause cycles).chargedLoads = cycles.toNat + s.chargedLoads := by
    rcases hc with rfl | rfl <;> simp [State.chargedLoads, State.advanceCycles, chargeOf]
  exact ⟨ok_arm hok _ hw, by omega, by omega⟩

variable (cfg : Settings)

theorem fair_readmem (phys size complCost : Nat) {armRt : BitVec 8} (hrt : armRt.toNat ≤ 32) :
    Fair s (s.cycReadmem cfg phys size complCost armRt) := by
  refine (fair_clear s).trans ?_
  unfold State.cycReadmem
  split_ifs
  · exact fair_arm_zero _ hrt
  · exact ((fair_advance _ _ _).trans (fair_arm _ (.inl rfl) _ hrt)).trans (fair_advance _ _ _)
  · exact (fair_advance _ _ _).trans (fair_arm _ (.inl rfl) _ hrt)

theorem toNat_reg (rt : Fin 32) : (BitVec.ofNat 8 rt.val).toNat ≤ 32 := by
  rw [toNat_ofNat]
  omega

theorem fair_load (addr : Word) (size : Nat) (rt : Fin 32) (regMask : Word) :
    Fair s (s.cycLoadTiming cfg addr size rt regMask) := by
  unfold State.cycLoadTiming
  by_cases hon : cfg.loadDelay = true
  · rw [if_neg (by simp [hon])]
    exact ((((fair_base s).trans (fair_deps _ regMask)).trans (fair_cancel _ rt)).trans (fair_lds _)).trans
      (fair_readmem _ cfg _ _ _ (toNat_reg rt))
  · rw [if_pos (by simpa using hon)]
    exact .refl s

theorem toNat_spent (give : BitVec 8) (stall : Word) :
    (if stall < give.setWidth 32 then (give.setWidth 32 - stall).setWidth 8 else 0#8).toNat ≤ give.toNat := by
  split_ifs with hlt
  · have hwidth : (give.setWidth 32).toNat = give.toNat := by
      rw [toNat_setWidth, Nat.mod_eq_of_lt (by omega)]
    rw [toNat_setWidth, toNat_sub_of_le (BitVec.le_of_lt hlt), hwidth]
    exact (Nat.mod_le _ _).trans (Nat.sub_le _ _)
  · exact Nat.zero_le _

theorem fair_spend (stall : Word) : Fair s (s.spend stall) := by
  refine .of_le rfl Ok.which (.inr rfl) id fun hs => Nat.add_le_add_right ?_ s.waiting
  have := inSlots_update_le (f := s.readAbsorb) hs.which (toNat_spent _ stall)
  show inSlots (update s.readAbsorb _ _) ≤ _
  omega

theorem fair_muldivStall : Fair s s.muldivStall := by
  unfold State.muldivStall
  split_ifs
  · exact .of_le rfl Ok.which (.inr rfl) id fun _ => le_rfl
  · exact (fair_spend s _).trans (fair_advance _ _ _)
  · exact .refl s

theorem fair_gteStall : Fair s s.gteStall := by
  unfold State.gteStall
  split_ifs
  · exact fair_advance _ _ _
  · exact .refl s

theorem fair_gteRead (rt : Fin 32) : Fair s (s.gteRead rt) := by
  unfold State.gteRead
  split_ifs
  · exact fair_arm s (.inr rfl) _ (toNat_reg rt)
  · exact fair_arm_zero s (toNat_reg rt)

theorem fair_fetch (addr : Word) : Fair s (s.icacheFetch cfg addr) := by
  unfold State.icacheFetch
  split_ifs
  · exact .refl s
  · exact .refl s
  · exact (fair_clear s).trans (fair_advance _ _ _)
  · refine ((fair_clear s).trans ?_).trans (fair_advance _ _ _)
    exact .of_le rfl Ok.which (.inr rfl) id fun _ => le_rfl

theorem fair_apply (e : Event) : Fair s (e.apply cfg s) := by
  cases e with
  | step regMask => exact fair_step s regMask
  | load w addr rt regMask => exact fair_load s cfg addr _ rt regMask
  | lwc2 addr => exact fair_readmem s cfg _ _ _ le_rfl
  | gteRead rt => exact fair_gteRead s rt
  | mfc0 rt => exact fair_arm_zero s (toNat_reg rt)
  | gteStall => exact fair_gteStall s
  | gteSet latency =>
    refine (fair_gteStall s).trans ?_
    exact .of_le rfl Ok.which (.inr rfl) id fun _ => le_rfl
  | muldivStall => exact fair_muldivStall s
  | muldivSet _ | deadlines _ _ => exact .of_le rfl Ok.which (.inr rfl) id fun _ => le_rfl
  | fetch addr => exact fair_fetch s cfg addr

theorem fair_run (events : List Event) : Fair s (run cfg events s) := by
  induction events generalizing s with
  | nil => exact .refl s
  | cons e events ih => exact (fair_apply s cfg e).trans (ih _)

end

theorem ok_reset : Ok reset where
  which := by decide
  ldWhich := by decide
  once := List.nodup_nil
  past := nofun
  pending := by decide

end PsxRecomp.Interlock
