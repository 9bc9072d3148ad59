import Mathlib.Tactic.SplitIfs
import PsxRecomp.Lib.Runs
import PsxRecomp.Lib.Words
import PsxRecomp.Machine.Cpu

/-!
# `Runtime/Icache.lean` — which instruction fetches may be left out

`psx_icache_fetch` (`runtime/src/psx_icache.c`) charges the fetch of one instruction against a
direct-mapped cache of 256 lines of four words, of which only the tags are kept. `exec_one` calls it for
every instruction. Both emitters call it only for a leader and at the start of a line
(`emit_icache_fetch`, `emit_pre_icache`), since the words after a fetched one in its line are valid: in
a line the valid words are a tail of it (`Closed`).

The instructions between the fetches are a parameter: they do what they like with everything but the
tags, which only `psx_icache_fetch` and `psx_icache_reset` write.
-/

set_option autoImplicit false

namespace PsxRecomp.Icache

open BitVec Words

/-! ## 1. The tags -/

/-- `s_icache_tv` -/
abbrev Tags := Nat → Word

def reset : Tags := fun _ => 1#32

section
variable (addr : Word)

def index : Nat := ((addr &&& 0xFFC#32) >>> 2).toNat
def line : Word := addr &&& 0xFFFFFFF0#32
def lineIndex : Nat := ((addr &&& 0xFF0#32) >>> 2).toNat
def wordInLine : Nat := ((addr &&& 0xC#32) >>> 2).toNat

def wordTag (i : Nat) : Word := line addr ||| BitVec.ofNat 32 (4 * i)

def invalidate (tv : Tags) : Tags :=
  [0, 1, 2, 3].foldl (fun tv i => Function.update tv (lineIndex addr + i) (wordTag addr i ||| 2#32)) tv

/-- The new tags and the cost: the line is made invalid, then valid from the missing word on. -/
def refill (tv : Tags) : Tags × Nat :=
  ([0, 1, 2, 3].filter (wordInLine addr ≤ ·)).foldl
    (fun (tv, cost) i =>
      let j := lineIndex addr + i
      (Function.update tv j (tv j &&& ~~~2#32), cost + 1))
    (invalidate addr tv, 3)

def Uncached : Prop := 0xA0000000#32 ≤ addr

instance : Decidable (Uncached addr) := inferInstanceAs (Decidable (_ ≤ _))

def Aligned : Prop := addr &&& 3#32 = 0#32

instance : Decidable (Aligned addr) := inferInstanceAs (Decidable (_ = _))

def Valid (tv : Tags) : Prop := tv (index addr) = addr

instance (tv : Tags) : Decidable (Valid addr tv) := inferInstanceAs (Decidable (_ = _))

end

/-! ## 2. Fetching -/

/-- `PSX_ICACHE`, and the flag of a lockstep replay. -/
structure Gate where
  enabled : Bool := true
  replayActive : Bool := false

def Gate.on (g : Gate) : Bool := g.enabled && !g.replayActive

/-- What a fetch and the instructions share: the load give-back, and the rest of the machine. -/
structure Live (E : Type) where
  readAbsorb : Fin 33 → BitVec 8
  readAbsorbWhich : Fin 33
  env : E

structure State (E : Type) where
  tv : Tags
  live : Live E
  /-- all cycles charged by fetches -/
  charged : Nat
  /-- the fetches that cleared the give-back, the last one first -/
  cleared : List Word

section
variable {E : Type} (g : Gate) (advanceCycles : Nat → E → E)

def Live.clear (l : Live E) : Live E :=
  { l with
    readAbsorb := Function.update l.readAbsorb l.readAbsorbWhich 0#8
    readAbsorbWhich := 0 }

/-- A miss: the give-back is cleared, then the cycles are charged. -/
def miss (addr : Word) (tv : Tags) (cost : Nat) (s : State E) : State E :=
  let live := s.live.clear
  { tv := tv
    live := { live with env := advanceCycles cost live.env }
    charged := s.charged + cost
    cleared := addr :: s.cleared }

def psxIcacheFetch (addr : Word) (s : State E) : State E :=
  if !g.on then s
  else if Valid addr s.tv then s
  else if Uncached addr then miss advanceCycles addr s.tv 4 s
  else
    let r := refill addr s.tv
    miss advanceCycles addr r.1 r.2 s

def retire (body : Live E → Live E) (s : State E) : State E := { s with live := body s.live }

/-- A straight run of `n` instructions from `pc` on, with a fetch at some of them. -/
def run (points : Word → Bool) (body : Word → Live E → Live E) : Nat → Word → State E → State E
  | 0, _, s => s
  | n + 1, pc, s =>
    let s := if points pc then psxIcacheFetch g advanceCycles pc s else s
    run points body n (pc + 4#32) (retire (body pc) s)

/-- `exec_one`: every instruction is fetched. -/
def everyFetch (_ : Word) : Bool := true

/-- `emit_icache_fetch`, `emit_pre_icache`: the leaders and the starts of lines. -/
def leaderFetch (leaders : Word → Bool) (addr : Word) : Bool :=
  leaders addr || addr &&& 0xC#32 == 0#32

def lost (points : Word → Bool) : Nat → Word → Nat
  | 0, _ => 0
  | n + 1, pc => (if points pc = false ∧ Uncached pc then 1 else 0) + lost points n (pc + 4#32)

end

/-! ## 3. Where a refill puts what -/

variable {b : Word} {i : Nat}

section
variable (addr : Word)

theorem index_eq : index addr = addr.toNat / 4 % 1024 := by
  rw [index, toNat_ushiftRight, toNat_and_field addr 2 10 rfl,
    Nat.shiftRight_eq_div_pow]
  omega

theorem lineIndex_eq : lineIndex addr = addr.toNat / 16 % 256 * 4 := by
  rw [lineIndex, toNat_ushiftRight, toNat_and_field addr 4 8 rfl,
    Nat.shiftRight_eq_div_pow]
  omega

theorem wordInLine_eq : wordInLine addr = addr.toNat / 4 % 4 := by
  rw [wordInLine, toNat_ushiftRight, toNat_and_field addr 2 2 rfl,
    Nat.shiftRight_eq_div_pow]
  omega

theorem toNat_line : (line addr).toNat = addr.toNat / 16 * 16 := by
  rw [line, toNat_and_field addr 4 28 rfl]
  omega

theorem aligned_iff : Aligned addr ↔ addr.toNat % 4 = 0 := by
  rw [Aligned, ← toNat_inj, toNat_and_field addr 0 2 rfl]
  simp

theorem index_split : index addr = lineIndex addr + wordInLine addr := by
  rw [index_eq, lineIndex_eq, wordInLine_eq]
  omega

theorem wordInLine_lt : wordInLine addr < 4 := by
  rw [wordInLine_eq]
  omega

theorem toNat_line_or {x : Word} (hx : x.toNat < 16) :
    (line addr ||| x).toNat = addr.toNat / 16 * 16 + x.toNat := by
  rw [toNat_or, toNat_line]
  have h := Nat.shiftLeft_add_eq_or_of_lt (show x.toNat < 2 ^ 4 from hx) (addr.toNat / 16)
  rw [Nat.shiftLeft_eq] at h
  exact h.symm

variable {addr}

theorem toNat_wordTag (hi : i < 4) : (wordTag addr i).toNat = addr.toNat / 16 * 16 + 4 * i := by
  have h : (BitVec.ofNat 32 (4 * i)).toNat = 4 * i := by
    rw [toNat_ofNat]
    omega
  rw [wordTag, toNat_line_or addr (by omega), h]

theorem toNat_wordTag_or_two (hi : i < 4) :
    (wordTag addr i ||| 2#32).toNat = addr.toNat / 16 * 16 + 4 * i + 2 := by
  have h : (BitVec.ofNat 32 (4 * i) ||| 2#32).toNat = 4 * i + 2 := by
    interval_cases i <;> rfl
  rw [wordTag, BitVec.or_assoc, toNat_line_or addr (by omega), h, Nat.add_assoc]

theorem wordTag_clear (hi : i < 4) : (wordTag addr i ||| 2#32) &&& 0xFFFFFFFD#32 = wordTag addr i := by
  have h : wordTag addr i &&& 2#32 = 0#32 := by
    rw [← toNat_inj, toNat_and_field _ 1 1 rfl, toNat_wordTag hi]
    simp
    omega
  exact or_and_not_of_disjoint h

theorem invalidate_apply (tv : Tags) (j : Nat) : invalidate addr tv j =
    if lineIndex addr ≤ j ∧ j < lineIndex addr + 4 then wordTag addr (j - lineIndex addr) ||| 2#32
    else tv j := by
  simp only [invalidate, List.foldl, Function.update_apply]
  split_ifs <;> first | omega | (subst_vars; simp)

theorem refill_apply (tv : Tags) (j : Nat) : (refill addr tv).1 j =
    if lineIndex addr ≤ j ∧ j < lineIndex addr + 4 then
      if wordInLine addr ≤ j - lineIndex addr then wordTag addr (j - lineIndex addr)
      else wordTag addr (j - lineIndex addr) ||| 2#32
    else tv j := by
  have hw := wordInLine_lt addr
  rw [refill]
  generalize wordInLine addr = w at hw ⊢
  interval_cases w <;> simp [Function.update_apply, invalidate_apply]
  all_goals split_ifs <;> first | omega | (subst_vars; simp [wordTag_clear])

theorem valid_refill (hb : Aligned b) (tv : Tags) :
    Valid b (refill addr tv).1 ↔
      if lineIndex addr = lineIndex b then line addr = line b ∧ wordInLine addr ≤ wordInLine b
      else Valid b tv := by
  have hw := wordInLine_lt b
  have hsplit := index_split b
  rw [aligned_iff] at hb
  rw [Valid, refill_apply]
  by_cases hl : lineIndex addr = lineIndex b
  · have hin : lineIndex addr ≤ index b ∧ index b < lineIndex addr + 4 := by omega
    have hword : index b - lineIndex addr = wordInLine b := by omega
    rw [if_pos hin, hword, if_pos hl]
    split_ifs with hle
    · rw [and_iff_left hle, ← toNat_inj, toNat_wordTag hw, ← toNat_inj, toNat_line,
        toNat_line, wordInLine_eq]
      omega
    · rw [← toNat_inj, toNat_wordTag_or_two hw]
      omega
  · have hout : ¬ (lineIndex addr ≤ index b ∧ index b < lineIndex addr + 4) := by
      rw [lineIndex_eq, lineIndex_eq] at *
      omega
    rw [if_neg hout, if_neg hl]
    rfl

end

/-! ## 4. The valid words of a line are a tail of it -/

structure Closed (tv : Tags) : Prop where
  tail : ∀ b, Aligned b → wordInLine b < 3 → Valid b tv → Valid (b + 4#32) tv
  cached : ∀ b, Aligned b → Valid b tv → ¬ Uncached b

theorem uncached_iff (addr : Word) : Uncached addr ↔ 0xA0000000 ≤ addr.toNat := Iff.rfl

theorem toNat_next (hw : wordInLine b < 3) : (b + 4#32).toNat = b.toNat + 4 := by
  rw [wordInLine_eq] at hw
  simp
  omega

theorem Aligned.next (hb : Aligned b) : Aligned (b + 4#32) := by
  rw [aligned_iff] at *
  simp
  omega

theorem closed_reset : Closed reset := by
  have hnone : ∀ b, Aligned b → ¬ Valid b reset := by
    intro b hb hv
    rw [Valid, reset] at hv
    subst hv
    exact absurd hb (by decide)
  exact ⟨fun b hb _ hv => absurd hv (hnone b hb), fun b hb hv => absurd hv (hnone b hb)⟩

/-- Every refill keeps the valid words of a line a tail of it. -/
theorem Closed.refill {tv : Tags} (h : Closed tv) {addr : Word} (hc : ¬ Uncached addr) :
    Closed (refill addr tv).1 := by
  constructor
  · intro b hb hw hv
    have hnext := toNat_next hw
    have hlt := wordInLine_eq b ▸ hw
    rw [valid_refill hb] at hv
    rw [valid_refill hb.next]
    have hindex : lineIndex (b + 4#32) = lineIndex b := by
      rw [lineIndex_eq, lineIndex_eq, hnext]
      omega
    have hline : line (b + 4#32) = line b := by
      rw [← toNat_inj, toNat_line, toNat_line, hnext]
      omega
    have hword : wordInLine (b + 4#32) = wordInLine b + 1 := by
      rw [wordInLine_eq, wordInLine_eq, hnext]
      omega
    rw [hindex, hline, hword]
    split_ifs at hv ⊢ with hl
    · exact ⟨hv.1, by omega⟩
    · exact h.tail b hb hw hv
  · intro b hb hv
    rw [valid_refill hb] at hv
    split_ifs at hv with hl
    · have hline := congrArg BitVec.toNat hv.1
      rw [toNat_line, toNat_line] at hline
      rw [uncached_iff] at *
      omega
    · exact h.cached b hb hv

section
variable {E : Type} {g : Gate} {adv : Nat → E → E} {s : State E} {pc : Word}

@[simp] theorem miss_charged {tv : Tags} {cost : Nat} :
    (miss adv pc tv cost s).charged = s.charged + cost := rfl

@[simp] theorem retire_charged {body : Live E → Live E} : (retire body s).charged = s.charged := rfl

theorem Closed.fetch (h : Closed s.tv) : Closed (psxIcacheFetch g adv pc s).tv := by
  unfold psxIcacheFetch
  split_ifs with _ _ hu
  · exact h
  · exact h
  · exact h
  · exact h.refill hu

theorem valid_fetch (hg : g.on = true) (ha : Aligned pc) (hu : ¬ Uncached pc) :
    Valid pc (psxIcacheFetch g adv pc s).tv := by
  unfold psxIcacheFetch
  simp only [hg, Bool.not_true, Bool.false_eq_true, if_false, if_neg hu]
  split_ifs with hv
  · exact hv
  · refine (valid_refill ha s.tv).mpr ?_
    rw [if_pos rfl]
    exact ⟨rfl, le_rfl⟩

theorem fetch_of_valid (hv : Valid pc s.tv) : psxIcacheFetch g adv pc s = s := by
  unfold psxIcacheFetch
  simp [if_pos hv, ite_self]

theorem fetch_of_off (hg : g.on = false) : psxIcacheFetch g adv pc s = s := by
  simp [psxIcacheFetch, hg]

variable (g adv) in
theorem fetch_congr {t : State E} (pc : Word) (h : s.tv = t.tv) :
    (psxIcacheFetch g adv pc s).tv = (psxIcacheFetch g adv pc t).tv ∧
      (psxIcacheFetch g adv pc t).charged + s.charged =
        (psxIcacheFetch g adv pc s).charged + t.charged := by
  unfold psxIcacheFetch
  rw [h]
  split_ifs
  · exact ⟨h, Nat.add_comm _ _⟩
  · exact ⟨h, Nat.add_comm _ _⟩
  all_goals
    refine ⟨rfl, ?_⟩
    simp only [miss_charged]
    omega

theorem fetch_uncached (hg : g.on = true) (h : Closed s.tv) (ha : Aligned pc) (hu : Uncached pc) :
    psxIcacheFetch g adv pc s = miss adv pc s.tv 4 s := by
  have hv : ¬ Valid pc s.tv := fun hv => h.cached pc ha hv hu
  unfold psxIcacheFetch
  simp [hg, Bool.not_true, Bool.false_eq_true, if_neg hv, if_pos hu]

end

/-! ## 5. A run with fetches left out -/

/-- The fetch at `pc` can be left out where `points` leaves it out. -/
def Ready (points : Word → Bool) (pc : Word) (tv : Tags) : Prop :=
  points pc = false → ¬ Uncached pc → Valid pc tv

variable {pc : Word}

section
variable {E : Type} {g : Gate} {adv : Nat → E → E} {points : Word → Bool}

theorem Ready.next {s : State E} (hp : ∀ a, wordInLine a = 0 → points a = true)
    (hg : g.on = true) (ha : Aligned pc) (hc : Closed s.tv) (hr : Ready points pc s.tv) :
    Ready points (pc + 4#32) (if points pc then psxIcacheFetch g adv pc s else s).tv := by
  intro hnot hu
  have hw : wordInLine pc < 3 := by
    by_contra hw
    have hstart : wordInLine (pc + 4#32) = 0 := by
      rw [wordInLine_eq] at *
      simp
      omega
    rw [hp _ hstart] at hnot
    cases hnot
  have hu' : ¬ Uncached pc := by
    have hnext := toNat_next hw
    rw [uncached_iff] at *
    omega
  split_ifs with hfetch
  · exact hc.fetch.tail pc ha hw (valid_fetch hg ha hu')
  · exact hc.tail pc ha hw (hr (by simpa using hfetch) hu')

variable (adv) in
/-- An uncached fetch is charged each time and fills nothing: a run loses four cycles for each one left
out. -/
theorem charged_run (hp : ∀ a, wordInLine a = 0 → points a = true) (hg : g.on = true)
    (body : Word → Live E → Live E) (n : Nat) {s t : State E} (ha : Aligned pc)
    (htv : s.tv = t.tv) (hc : Closed s.tv) (hr : Ready points pc s.tv) :
    (run g adv everyFetch body n pc t).charged + s.charged =
      (run g adv points body n pc s).charged + t.charged + 4 * lost points n pc := by
  induction n generalizing pc s t with
  | zero =>
    simp only [run, lost]
    omega
  | succ n ih =>
    have hready : Ready points (pc + 4#32)
        (if points pc then psxIcacheFetch g adv pc s else s).tv := hr.next hp hg ha hc
    simp only [run, everyFetch, if_true, lost] at hready ⊢
    cases hpt : points pc with
    | true =>
      simp only [hpt, if_true] at hready ⊢
      obtain ⟨htv', hcost⟩ := fetch_congr g adv pc htv
      have h := ih (s := retire (body pc) (psxIcacheFetch g adv pc s))
        (t := retire (body pc) (psxIcacheFetch g adv pc t)) ha.next htv' hc.fetch hready
      simp only [retire_charged] at h
      simp only [Bool.true_eq_false, false_and, if_false]
      omega
    | false =>
      simp only [hpt, Bool.false_eq_true, if_false, true_and] at hready ⊢
      by_cases hu : Uncached pc
      · rw [fetch_uncached hg (htv ▸ hc) ha hu]
        have h := ih (s := retire (body pc) s) (t := retire (body pc) (miss adv pc t.tv 4 t))
          ha.next htv hc hready
        simp only [retire_charged, miss_charged] at h
        rw [if_pos hu]
        omega
      · rw [fetch_of_valid (htv ▸ hr hpt hu)]
        have h := ih (s := retire (body pc) s) (t := retire (body pc) t) ha.next htv hc hready
        simp only [retire_charged] at h
        rw [if_neg hu]
        omega

theorem run_eq_of_lost (hp : ∀ a, wordInLine a = 0 → points a = true) (hg : g.on = true)
    (body : Word → Live E → Live E) (n : Nat) {s : State E} (ha : Aligned pc)
    (hc : Closed s.tv) (hr : Ready points pc s.tv) (hlost : lost points n pc = 0) :
    run g adv points body n pc s = run g adv everyFetch body n pc s := by
  induction n generalizing pc s with
  | zero => rfl
  | succ n ih =>
    rw [lost, Nat.add_eq_zero_iff] at hlost
    obtain ⟨hnow, hlater⟩ := hlost
    have hfetch : (if points pc then psxIcacheFetch g adv pc s else s) =
        psxIcacheFetch g adv pc s := by
      split_ifs with hpt
      · rfl
      · have hpt' : points pc = false := by simpa using hpt
        have hu : ¬ Uncached pc := fun hu => by simp [hpt', hu] at hnow
        exact (fetch_of_valid (hr hpt' hu)).symm
    have hready : Ready points (pc + 4#32) (psxIcacheFetch g adv pc s).tv :=
      hfetch ▸ hr.next hp hg ha hc
    simp only [run, hfetch, everyFetch, if_true]
    exact ih ha.next hc.fetch hready hlater

theorem run_eq_of_off (hg : g.on = false) (body : Word → Live E → Live E) (n : Nat)
    {s : State E} : run g adv points body n pc s = run g adv everyFetch body n pc s := by
  induction n generalizing pc s with
  | zero => rfl
  | succ n ih =>
    simp only [run, fetch_of_off hg, ite_self]
    exact ih

end

/-! ## 6. Exactness -/

/-- The address of the `k`-th instruction of a run. -/
def addrAt (pc : Word) (k : Nat) : Word := pc + BitVec.ofNat 32 (4 * k)

theorem addrAt_succ (pc : Word) (k : Nat) : addrAt pc (k + 1) = addrAt (pc + 4#32) k := by
  rw [addrAt, addrAt, Nat.mul_add, ofNat_add, add_comm (BitVec.ofNat 32 (4 * k)),
    add_assoc]

theorem lost_eq_zero_iff (points : Word → Bool) (n : Nat) (pc : Word) : lost points n pc = 0 ↔
    ∀ k < n, points (addrAt pc k) = false → ¬ Uncached (addrAt pc k) := by
  induction n generalizing pc with
  | zero => simp [lost]
  | succ n ih =>
    have h0 : addrAt pc 0 = pc := by simp [addrAt]
    rw [lost, Nat.add_eq_zero_iff, ih, Nat.forall_lt_succ_left, h0]
    simp only [addrAt_succ]
    exact and_congr_left fun _ => by simp

theorem leaderFetch_line (leaders : Word → Bool) (addr : Word) (h : wordInLine addr = 0) :
    leaderFetch leaders addr = true := by
  have hc : addr &&& 0xC#32 = 0#32 := by
    rw [wordInLine_eq] at h
    rw [← toNat_inj, toNat_and_field addr 2 2 rfl]
    simp
    omega
  simp [leaderFetch, hc]

section
variable {E : Type} (g : Gate) (adv : Nat → E → E)

/-- A fetch at any address, then anything that leaves the tags alone. -/
def step (op : Word × (Live E → Live E)) (s : State E) : Option (State E) :=
  some (retire op.2 (psxIcacheFetch g adv op.1 s))

def Reached : State E → Prop :=
  Runs.Reached (step g adv) (fun _ _ => True) (fun s => s.tv = reset)

variable {g adv}

theorem Reached.closed {s : State E} (h : Reached g adv s) : Closed s.tv := by
  refine Runs.Reached.invariant (I := fun s => Closed s.tv) ?_ ?_ h
  · rintro s hs
    rw [hs]
    exact closed_reset
  · rintro op s s' hc - heq
    cases heq
    exact hc.fetch

/-- **Leaving out fetches is exact just where the cache is in play.** From every reachable state, a
straight run from a leader does the same with all its fetches and with those of the leaders and line
starts alone, if and only if it leaves out no uncached fetch. -/
theorem fetch_elision_exact_iff {s : State E} (hs : Reached g adv s) (leaders : Word → Bool)
    {leader : Word} (hl : leaders leader = true) (ha : Aligned leader)
    (body : Word → Live E → Live E) (n : Nat) :
    run g adv (leaderFetch leaders) body n leader s = run g adv everyFetch body n leader s ↔
      (g.on = true → ∀ k < n, leaderFetch leaders (addrAt leader k) = false →
        ¬ Uncached (addrAt leader k)) := by
  have hready : Ready (leaderFetch leaders) leader s.tv := by
    intro hnot
    simp [leaderFetch, hl] at hnot
  rw [← lost_eq_zero_iff]
  cases hg : g.on with
  | false => simp [run_eq_of_off hg]
  | true =>
    simp only [forall_const]
    constructor
    · intro heq
      have h := charged_run adv (leaderFetch_line leaders) hg body n ha rfl hs.closed hready
      rw [heq] at h
      omega
    · exact run_eq_of_lost (leaderFetch_line leaders) hg body n ha hs.closed hready

/-- Eight instructions in the middle of a line of `KSEG0`, from a reset on. -/
theorem fetch_elision_exact_kseg0 :
    let s : State Unit := ⟨reset, ⟨fun _ => 0#8, 0, ()⟩, 0, []⟩
    let leaders : Word → Bool := (· == 0x80010008#32)
    run {} (fun _ e => e) (leaderFetch leaders) (fun _ l => l) 8 0x80010008#32 s =
      run {} (fun _ e => e) everyFetch (fun _ l => l) 8 0x80010008#32 s :=
  (fetch_elision_exact_iff (.start rfl) _ (by decide) (by decide) _ 8).mpr
    (fun _ => by decide +kernel)

/-- Two instructions at the start of the BIOS. -/
theorem fetch_elision_bios_undercharges :
    let s : State Unit := ⟨reset, ⟨fun _ => 0#8, 0, ()⟩, 0, []⟩
    let leaders : Word → Bool := (· == 0xBFC00000#32)
    (run {} (fun _ e => e) (leaderFetch leaders) (fun _ l => l) 2 0xBFC00000#32 s).charged = 4 ∧
      (run {} (fun _ e => e) everyFetch (fun _ l => l) 2 0xBFC00000#32 s).charged = 8 := by
  decide +kernel

end

end PsxRecomp.Icache
