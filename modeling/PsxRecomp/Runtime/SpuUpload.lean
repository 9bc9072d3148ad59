import Mathlib.Data.List.Infix
import Mathlib.Tactic.SplitIfs
import PsxRecomp.Runtime.Spu

/-!
# `Runtime/SpuUpload.lean` — uploads to sound RAM

A halfword written to the FIFO stores two bytes, a DMA word four, both at one cursor that wraps at the
end of sound RAM. Each has its own guard there.
-/

set_option autoImplicit false

namespace PsxRecomp.Spu

open List State

/-- A halfword for the FIFO, or a DMA word -/
structure Upload where
  dma : Bool
  value : BitVec 32

/-- … little-endian -/
def Upload.bytes (u : Upload) : List (BitVec 8) :=
  (if u.dma then [0, 8, 16, 24] else [0, 8]).map fun i => (u.value >>> i).setWidth 8

def State.upload (s : State) (u : Upload) : State :=
  if u.dma then s.dmaWrite u.value else s.write 0x1F801DA8 u.value

/-- A write of the transfer address, and what follows it -/
def State.uploads (s : State) (value : BitVec 32) (us : List Upload) : State :=
  us.foldl State.upload (s.write 0x1F801DA6 value)

def startOf (value : BitVec 32) : Nat := (value &&& 0xFFFF).toNat <<< 3

/-- The bytes from `start` on, modulo the size of sound RAM, a later one over an earlier one -/
def stored (start : Nat) : List (BitVec 8) → Ram → Ram
  | [], ram => ram
  | b :: bs, ram => stored (start + 1) bs (Function.update ram (start % ramSize) b)

/-- Two bytes each, and two more for a DMA word -/
def bytesIn (kinds : List Bool) : Nat := 2 * (kinds.length + kinds.count true)

/-- No DMA word begins two bytes before the end of sound RAM. -/
def NoStraddle (value : BitVec 32) (kinds : List Bool) : Prop :=
  ∀ p, p ++ [true] <+: kinds → (startOf value + bytesIn p) % ramSize ≠ ramSize - 2

section
variable {start : Nat} {bs : List (BitVec 8)} {ram : Ram} {s : State} {u : Upload} {value : BitVec 32}

theorem stored_append (bs' : List (BitVec 8)) :
    stored start (bs ++ bs') ram = stored (start + bs.length) bs' (stored start bs ram) := by
  induction bs generalizing start ram with
  | nil => rfl
  | cons b bs ih => simp only [cons_append, stored, ih, length_cons, Nat.add_assoc, Nat.add_comm 1]

theorem stored_mod : stored (start % ramSize) bs ram = stored start bs ram := by
  induction bs generalizing start ram with
  | nil => rfl
  | cons b bs ih => rw [stored, stored, ← ih, Nat.mod_add_mod, ih, Nat.mod_mod]

theorem upload_cursor : (s.upload u).transferAddr =
    (s.transferAddr + if u.dma then 4 else 2) % ramSize := by
  unfold upload
  cases u.dma <;> rfl

theorem upload_ram (heven : s.transferAddr % 2 = 0) (hlt : s.transferAddr < ramSize) :
    (s.upload u).ram = if u.dma ∧ s.transferAddr = ramSize - 2 then s.ram
      else stored s.transferAddr u.bytes s.ram := by
  have hsize : ramSize % 4 = 0 := by decide
  obtain ⟨dma, value⟩ := u
  cases dma with
  | false =>
    have hroom : s.transferAddr + 1 < ramSize := by omega
    have hram : (s.write 0x1F801DA8 value).ram = Function.update (Function.update s.ram s.transferAddr
        (value.setWidth 8)) (s.transferAddr + 1) ((value >>> 8).setWidth 8) := if_pos hroom
    simp [upload, hram, Upload.bytes, stored, Nat.mod_eq_of_lt hroom, Nat.mod_eq_of_lt hlt]
  | true =>
    by_cases hroom : s.transferAddr + 3 < ramSize
    · have hmod : ∀ i < 4, (s.transferAddr + i) % ramSize = s.transferAddr + i := fun i hi =>
        Nat.mod_eq_of_lt (by omega)
      have hne : s.transferAddr ≠ ramSize - 2 := by omega
      funext a
      simp only [upload, dmaWrite, Upload.bytes, stored, if_pos hroom, if_true, hne,
        and_false, if_false, map_cons, map_nil, Nat.add_assoc, Nat.reduceAdd, hmod, Nat.lt_add_one,
        Nat.reduceLT, Nat.mod_eq_of_lt hlt, Function.update_apply]
      by_cases hin : s.transferAddr ≤ a ∧ a < s.transferAddr + 4
      · obtain ⟨i, rfl⟩ := Nat.exists_eq_add_of_le hin.1
        obtain rfl | rfl | rfl | rfl : i = 0 ∨ i = 1 ∨ i = 2 ∨ i = 3 := by omega
        all_goals simp
      · rw [if_neg hin, if_neg (by omega), if_neg (by omega), if_neg (by omega), if_neg (by omega)]
    · have heq : s.transferAddr = ramSize - 2 := by omega
      rw [if_pos ⟨rfl, heq⟩]
      exact if_neg hroom

theorem length_bytes (us : List Upload) :
    (us.flatMap Upload.bytes).length = bytesIn (us.map Upload.dma) := by
  induction us with
  | nil => rfl
  | cons u us ih =>
    rw [flatMap_cons, length_append, ih, Upload.bytes]
    cases hu : u.dma <;> simp [bytesIn, hu] <;> omega

theorem startOf_lt : startOf value < ramSize := by
  have hand : (value &&& 0xFFFF).toNat ≤ 0xFFFF := by
    exact Nat.and_le_right
  rw [startOf, Nat.shiftLeft_eq, ramSize]
  omega

theorem uploads_cursor (us : List Upload) : (s.uploads value us).transferAddr =
    (startOf value + bytesIn (us.map Upload.dma)) % ramSize := by
  induction us using reverseRecOn with
  | nil =>
    have hstart : (s.uploads value []).transferAddr = startOf value :=
      if_neg (Nat.not_le.mpr startOf_lt)
    exact hstart.trans (Nat.mod_eq_of_lt startOf_lt).symm
  | append_singleton us u ih =>
    rw [uploads, foldl_append, foldl_cons, foldl_nil, upload_cursor, ← uploads, ih,
      Nat.mod_add_mod]
    cases hu : u.dma <;> simp [bytesIn, hu] <;> congr 1 <;> omega

theorem uploads_snoc (us : List Upload) : (s.uploads value (us ++ [u])).ram =
    if u.dma ∧ (startOf value + bytesIn (us.map Upload.dma)) % ramSize = ramSize - 2 then
      (s.uploads value us).ram
    else stored (startOf value + bytesIn (us.map Upload.dma)) u.bytes (s.uploads value us).ram := by
  have heven : (startOf value + bytesIn (us.map Upload.dma)) % ramSize % 2 = 0 := by
    rw [Nat.mod_mod_of_dvd _ (by decide), startOf, Nat.shiftLeft_eq, bytesIn]
    omega
  rw [← uploads_cursor (s := s)] at heven
  have hlt : (s.uploads value us).transferAddr < ramSize := by
    rw [uploads_cursor]
    exact Nat.mod_lt _ (by decide)
  have hstep := upload_ram (u := u) heven hlt
  rw [uploads_cursor, stored_mod] at hstep
  rw [uploads, foldl_append]
  exact hstep

end

/-- Every byte of an upload is stored, for all data and at every point of it, if and only if no DMA word
begins two bytes before the end of sound RAM: halfwords before it may have moved the cursor there. A
halfword never meets its guard, since the cursor is even. -/
theorem upload_exact_iff (value : BitVec 32) (kinds : List Bool) :
    (∀ (us : List Upload) (s : State), us.map Upload.dma <+: kinds →
      (s.uploads value us).ram = stored (startOf value) (us.flatMap Upload.bytes) s.ram) ↔
    NoStraddle value kinds := by
  constructor
  · intro h p hp hlast
    -- two words that differ leave the same RAM there
    let before : List Upload := p.map fun dma => ⟨dma, 0⟩
    have hkinds : before.map Upload.dma = p := by simp [before, Function.comp_def]
    have hword (w : BitVec 32) : (init.uploads value before).ram (ramSize - 2) = w.setWidth 8 := by
      have hafter := h (before ++ [⟨true, w⟩]) .init (by rwa [map_append, hkinds])
      rw [uploads_snoc, hkinds, if_pos ⟨rfl, hlast⟩, flatMap_append, stored_append, length_bytes, hkinds,
        ← stored_mod, hlast] at hafter
      rw [hafter]
      rfl
    exact absurd ((hword 0).symm.trans (hword 1)) (by decide)
  · intro h us s hus
    induction us using reverseRecOn with
    | nil => rfl
    | append_singleton us u ih =>
      rw [map_append] at hus
      have hroom : ¬ (u.dma = true ∧
          (startOf value + bytesIn (us.map Upload.dma)) % ramSize = ramSize - 2) :=
        fun ⟨hdma, hend⟩ => h _ (by rwa [← hdma]) hend
      rw [uploads_snoc, if_neg hroom, ih ((prefix_append _ _).trans hus), flatMap_append, stored_append,
        length_bytes, flatMap_singleton]

/-- Three halfwords from `0x7FFF8` on, and a word behind them -/
def straddling : List Upload := [⟨false, 0⟩, ⟨false, 0⟩, ⟨false, 0⟩, ⟨true, 0xFFFFFFFF⟩]

theorem straddling_word_lost : (State.init.uploads 0xFFFF straddling).ram 0 ≠
    stored (startOf 0xFFFF) (straddling.flatMap Upload.bytes) State.init.ram 0 := by
  decide +kernel

end PsxRecomp.Spu
