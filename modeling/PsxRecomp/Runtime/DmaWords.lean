import Mathlib.Data.List.Nodup
import PsxRecomp.Runtime.DmaLive
import PsxRecomp.Runtime.Ram

/-!
# `Runtime/DmaWords.lean` — the addresses of a transfer

The words a channel moves are at its start address and then one step up or down at a time, inside the
two megabytes of RAM.
-/

set_option autoImplicit false

namespace PsxRecomp.Dma

open BitVec Channel

def InRam (addr : Word) : Prop := addr &&& 0x1FFFFC#32 = addr

theorem inRam_and (a : Word) : InRam (a &&& 0x1FFFFC#32) := by
  simp [InRam, BitVec.and_assoc]

theorem inRam_nextAddr (step a : Word) : InRam (nextAddr step a) := inRam_and _

theorem inRam_startAddr (c : Channel) : InRam c.startAddr := inRam_and _

theorem toNat_and_ram (a : Word) : (a &&& 0x1FFFFC#32).toNat = a.toNat / 4 % 2 ^ 19 * 4 :=
  Words.toNat_and_field a 2 19 rfl

theorem InRam.toNat {a : Word} (h : InRam a) : a.toNat < 2 ^ 21 ∧ a.toNat % 4 = 0 := by
  rw [← h, toNat_and_ram]
  omega

theorem physAddr_inRam {a : Word} (h : InRam a) : Ram.physAddr a = a.toNat := by
  have := h.toNat
  rw [Ram.physAddr, Nat.mod_eq_of_lt (by omega), if_pos (by omega)]
  exact Nat.mod_eq_of_lt (by simp only [Ram.ramSize]; omega)

theorem storeTarget_inRam {a : Word} (h : InRam a) : Ram.storeTarget false a = some a.toNat := by
  have := h.toNat
  rw [Ram.storeTarget, if_neg (by simp only [Bool.false_eq_true, or_false]; omega), physAddr_inRam h,
    if_pos (by simp only [Ram.ramSize]; omega)]

theorem toNat_addrStep (c : Channel) : c.addrStep.toNat = if c.chcr.getLsbD 1 then 2 ^ 32 - 4 else 4 := by
  unfold addrStep
  split_ifs <;> rfl

/-- The addresses of `n` words -/
def addresses (step : Word) : Nat → Word → List Word
  | 0, _ => []
  | n + 1, a => a :: addresses step n (nextAddr step a)

def addrAfter (step : Word) (n : Nat) (a : Word) : Word := (nextAddr step)^[n] a

section
variable {step a : Word} {n : Nat}

@[simp] theorem length_addresses (step : Word) (n : Nat) (a : Word) : (addresses step n a).length = n := by
  induction n generalizing a with
  | zero => rfl
  | succ n ih => simp [addresses, ih]

theorem addrAfter_succ (step : Word) (n : Nat) (a : Word) :
    addrAfter step (n + 1) a = addrAfter step n (nextAddr step a) := rfl

theorem addrAfter_add (step : Word) (m n : Nat) (a : Word) :
    addrAfter step (m + n) a = addrAfter step n (addrAfter step m a) := by
  rw [Nat.add_comm, addrAfter, Function.iterate_add_apply]
  rfl

theorem addresses_append (step : Word) (m n : Nat) (a : Word) :
    addresses step (m + n) a = addresses step m a ++ addresses step n (addrAfter step m a) := by
  induction m generalizing a with
  | zero => simp [addresses, addrAfter]
  | succ m ih => rw [Nat.succ_add, addresses, ih, addresses, List.cons_append, addrAfter_succ]

theorem inRam_addrAfter (h : InRam a) (n : Nat) : InRam (addrAfter step n a) := by
  cases n with
  | zero => exact h
  | succ n =>
    rw [addrAfter, Function.iterate_succ_apply']
    exact inRam_nextAddr _ _

theorem toNat_addrAfter (hstep : step.toNat % 4 = 0) (h : InRam a) (n : Nat) :
    (addrAfter step n a).toNat = (a.toNat + n * step.toNat) % 2 ^ 21 := by
  induction n generalizing a with
  | zero =>
    rw [Nat.zero_mul, Nat.add_zero, Nat.mod_eq_of_lt h.toNat.1]
    rfl
  | succ n ih =>
    have hnext : (nextAddr step a).toNat = (a.toNat + step.toNat) % 2 ^ 21 := by
      have := h.toNat
      rw [nextAddr, toNat_and_ram, toNat_add]
      omega
    rw [addrAfter_succ, ih (inRam_nextAddr _ _), hnext, Nat.succ_mul]
    omega

theorem mem_addresses {x : Word} : x ∈ addresses step n a ↔ ∃ i < n, addrAfter step i a = x := by
  induction n generalizing a with
  | zero => simp [addresses]
  | succ n ih =>
    rw [addresses, List.mem_cons, ih, Nat.exists_lt_succ_left, eq_comm]
    rfl

theorem addrAfter_inj (hstep : step.toNat = 4 ∨ step.toNat = 2 ^ 32 - 4) (h : InRam a) {i j : Nat}
    (hi : i < 0x80000) (hj : j < 0x80000) (heq : addrAfter step i a = addrAfter step j a) : i = j := by
  have hnat := congrArg BitVec.toNat heq
  rw [toNat_addrAfter (by omega) h, toNat_addrAfter (by omega) h] at hnat
  rcases hstep with hstep | hstep <;> rw [hstep] at hnat <;> omega

/-- Up to a whole RAM of addresses are different. -/
theorem nodup_addresses (hstep : step.toNat = 4 ∨ step.toNat = 2 ^ 32 - 4) (h : InRam a)
    (hn : n ≤ 0x80000) : (addresses step n a).Nodup := by
  induction n generalizing a with
  | zero => exact List.nodup_nil
  | succ n ih =>
    refine List.nodup_cons.mpr ⟨fun hmem => ?_, ih (inRam_nextAddr _ _) (by omega)⟩
    obtain ⟨i, hi, heq⟩ := mem_addresses.mp hmem
    have := addrAfter_inj (i := i + 1) (j := 0) hstep h (by omega) (by omega) heq
    omega

end

theorem addrStep_cases (c : Channel) : c.addrStep.toNat = 4 ∨ c.addrStep.toNat = 2 ^ 32 - 4 := by
  rw [toNat_addrStep]
  split_ifs
  · exact .inr rfl
  · exact .inl rfl

section
variable {E : Type} {ready : E → Bool} {move : Word → E → E}

/-- What `moveWords` does is to move the words of the list `addresses`. -/
theorem moveWords_snd (step : Word) (n : Nat) (a : Word) (e : E) :
    (moveWords ready move step n a e).2 =
      (addrAfter step (moveWords ready move step n a e).1 a,
        (addresses step (moveWords ready move step n a e).1 a).foldl (fun e a => move a e) e) := by
  induction n generalizing a e with
  | zero => rfl
  | succ n ih =>
    unfold moveWords
    split
    · dsimp only
      rw [ih, addrAfter_succ]
      rfl
    · rfl

theorem moveWords_eq_of_keeps {I : E → Prop} (hready : ∀ e, I e → ready e = true)
    (hmove : ∀ a e, I e → I (move a e)) (step : Word) (n : Nat) (a : Word) {e : E} (he : I e) :
    moveWords ready move step n a e =
      (n, addrAfter step n a, (addresses step n a).foldl (fun e a => move a e) e) := by
  induction n generalizing a e with
  | zero => rfl
  | succ n ih =>
    rw [moveWords, if_pos (hready e he), ih _ (hmove a e he)]
    rfl

theorem moveWords_eq (hready : ∀ e, ready e = true) (step : Word) (n : Nat) (a : Word) (e : E) :
    moveWords ready move step n a e =
      (n, addrAfter step n a, (addresses step n a).foldl (fun e a => move a e) e) :=
  moveWords_eq_of_keeps (I := fun _ => True) (fun e _ => hready e) (fun _ _ _ => trivial) step n a trivial

end

/-- `num_entries` of `execute_ch6_otc` -/
def numEntries (c : Channel) : Nat := if c.blockSize = 0 then 0x10000 else c.blockSize

theorem numEntries_bounds (c : Channel) : 0 < numEntries c ∧ numEntries c ≤ 0x10000 := by
  have hsize : c.blockSize ≤ 0xFFFF := by
    exact Nat.and_le_right
  unfold numEntries
  split_ifs <;> omega

/-! ## Starting a transfer -/

theorem merge_all (old val : Word) : merge old val 0xFFFFFFFF#32 = val := by
  change (old &&& ~~~allOnes 32) ||| (val &&& allOnes 32) = val
  rw [not_allOnes, and_zero, and_allOnes, zero_or]

/-- `chcr &= ~(1u << 28)` -/
def Channel.kick (c : Channel) : Channel := { c with chcr := c.chcr &&& 0xEFFFFFFF#32 }

section
variable (c : Channel)

@[simp] theorem Channel.busy_kick : c.kick.busy = c.busy := by
  simp [busy, kick]

@[simp] theorem Channel.direction_kick : c.kick.direction = c.direction := by
  simp [direction, kick]

@[simp] theorem Channel.direction_stop : c.stop.direction = c.direction := by
  simp [direction, stop]

@[simp] theorem Channel.addrStep_kick : c.kick.addrStep = c.addrStep := by
  simp [addrStep, kick]

@[simp] theorem Channel.syncMode_kick : c.kick.syncMode = c.syncMode := by
  rw [syncMode, kick, ushiftRight_and_distrib, BitVec.and_assoc]
  rfl

end

section
variable {E : Type} {bus : Bus E} {s : State E} {ch : Fin 7} {val : Word}

/-- The state in which `try_execute` calls the executor -/
def State.kicked (s : State E) (ch : Fin 7) : State E := s.setChannel ch (s.channels ch).kick

@[simp] theorem State.kicked_self : (s.kicked ch).channels ch = (s.channels ch).kick :=
  Function.update_self ..

def State.setChcr (s : State E) (ch : Fin 7) (val : Word) : State E :=
  s.setChannel ch ⟨(s.channels ch).madr, (s.channels ch).bcr, val⟩

@[simp] theorem State.setChcr_self :
    (s.setChcr ch val).channels ch = ⟨(s.channels ch).madr, (s.channels ch).bcr, val⟩ :=
  Function.update_self ..

theorem tryExecute_kicked (hbusy : (s.channels ch).busy = true) (hen : s.enabled ch = true)
    (hlen : lengthOk bus (s.kicked ch) ch = true) :
    tryExecute bus ch s = execute bus ch (s.kicked ch) := by
  unfold tryExecute
  rw [if_neg (by simp [hbusy]), if_neg (by simp [hen])]
  rw [if_neg]
  · rfl
  · rw [Bool.not_eq_true', Bool.not_eq_false]
    exact hlen

theorem dmaWriteMasked_start {addr : Word} (h : Reg.ofAddr addr = .chcr ch)
    (hstart : val.getLsbD 24 = true) (hen : s.enabled ch = true)
    (hlen : lengthOk bus ((s.setChcr ch val).kicked ch) ch = true) :
    dmaWriteMasked bus addr val 0xFFFFFFFF#32 s = execute bus ch ((s.setChcr ch val).kicked ch) := by
  have hmask : (0xFFFFFFFF#32).getLsbD 24 = true := by decide
  have hbusy : ((s.setChcr ch val).channels ch).busy = true := by
    rw [State.setChcr_self]
    exact hstart
  rw [dmaWriteMasked_chcr h, writeChcr, merge_all, if_pos hmask]
  exact (if_pos hbusy).trans (tryExecute_kicked hbusy hen hlen)

theorem dmaWriteMasked_madr {addr : Word} (h : Reg.ofAddr addr = .madr ch) :
    dmaWriteMasked bus addr val 0xFFFFFFFF#32 s = some (s.setMadr ch val) := by
  simp [dmaWriteMasked, h, merge_all]

end

end PsxRecomp.Dma
